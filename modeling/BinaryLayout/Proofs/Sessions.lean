import BinaryLayout.Proofs.Placements
import BinaryLayout.Session

/-!
# Sound sessions

A session is sound when every format in its cache is what its descriptor denotes. Nothing is in
the cache at first and no operation of a session puts anything else there, so a text always
stands for the format that it would be compiled to.
-/
namespace BinaryLayout

/-! ## The cache -/

/-- Every kept compilation is what its descriptor denotes. -/
def Cache.Sound (c : Cache) : Prop :=
  ∀ e ∈ c.entries, Descriptor.compile e.descriptor = .ok e.format

namespace Lookup

/-- The format that was looked up. -/
def outcome : Lookup → Except Fault Format
  | .hit entry _ | .compiled entry _ => .ok entry.format
  | .failed fault _ => .error fault

/-- The cache after looking up. -/
def cache : Lookup → Cache
  | .hit _ cache | .compiled _ cache | .failed _ cache => cache

end Lookup

namespace Cache

variable {c : Cache} {d : Text}

lemma find?_eq_some {e : Compiled} (h : c.find? d = some e) :
    e ∈ c.entries ∧ e.descriptor = d := by
  refine ⟨List.mem_of_find?_eq_some h, ?_⟩
  simpa using List.find?_some h

/-- Looking a descriptor up is compiling it. -/
theorem outcome_lookUp (hc : c.Sound) (d : Text) : (c.lookUp d).outcome = Descriptor.compile d := by
  unfold lookUp
  cases hf : c.find? d with
  | some e =>
    obtain ⟨hmem, rfl⟩ := find?_eq_some hf
    exact (hc e hmem).symm
  | none => cases hd : Descriptor.compile d <;> rfl

lemma Sound.touch (hc : c.Sound) {e : Compiled} (he : e ∈ c.entries) : (c.touch e).Sound := by
  intro e' he'
  rcases List.mem_cons.mp he' with rfl | he'
  · exact hc e' he
  · exact hc e' (List.mem_of_mem_erase he')

lemma Sound.insert (hc : c.Sound) {f : Format} (hd : Descriptor.compile d = .ok f) :
    (c.insert d f).Sound := by
  intro e he
  rcases List.mem_cons.mp (List.mem_of_mem_take he) with rfl | he
  · exact hd
  · exact hc e he

theorem Sound.lookUp (hc : c.Sound) (d : Text) : (c.lookUp d).cache.Sound := by
  unfold Cache.lookUp
  cases hf : c.find? d with
  | some e => exact hc.touch (find?_eq_some hf).1
  | none =>
    cases hd : Descriptor.compile d with
    | ok f => exact hc.insert hd
    | error fault => exact hc

end Cache

/-! ## Operations -/

/-- An operation that fails is not followed by the next one. -/
lemma run_bind {σ : Type} (x : ExceptT Fault (StateM σ) α) (g : α → ExceptT Fault (StateM σ) β)
    (s : σ) :
    (x >>= g).run.run s =
      match x.run.run s with
      | (.ok a, s') => (g a).run.run s'
      | (.error fault, s') => (.error fault, s') := by
  simp only [ExceptT.run, StateT.run, bind, ExceptT.bind, ExceptT.mk, ExceptT.bindCont,
    StateT.bind]
  rcases x s with ⟨fault | a, s'⟩ <;> rfl

section Bind

variable {x : Action α} {g : α → Action β} {s : Session}

/-- An operation that succeeds is followed by the next one. -/
lemma run_bind_of_ok {a : α} (h : (x.run.run s).1 = .ok a) :
    (x >>= g).run.run s = (g a).run.run (x.run.run s).2 := by
  rw [run_bind]
  revert h
  rcases x.run.run s with ⟨fault | b, s'⟩ <;> rintro ⟨⟩
  rfl

lemma run_bind_of_error {fault : Fault} (h : (x.run.run s).1 = .error fault) :
    ((x >>= g).run.run s).1 = .error fault := by
  rw [run_bind]
  revert h
  rcases x.run.run s with ⟨fault | b, s'⟩ <;> rintro ⟨⟩
  rfl

lemma run_bind_pure (x : Action α) (g : α → β) (s : Session) :
    ((x >>= fun a => pure (g a)).run.run s).1 = (x.run.run s).1.map g := by
  rw [run_bind]
  rcases x.run.run s with ⟨fault | a, s'⟩ <;> rfl

lemma run_report_ok_bind (a : α) (g : α → Action β) (s : Session) :
    (Session.report (.ok a) >>= g).run.run s = (g a).run.run s := rfl

end Bind

namespace Session

/-- Every format in the cache is what its descriptor denotes. -/
def Sound (s : Session) : Prop := s.cache.Sound

theorem sound_empty : empty.Sound := fun _ h => absurd h List.not_mem_nil

/-- The operation leaves a sound session sound. -/
def Keeps (x : StateM Session α) : Prop := ∀ s : Session, s.Sound → (x.run s).2.Sound

lemma keeps_pure (a : α) : Keeps (pure a : StateM Session α) := fun _ hs => hs

lemma keeps_bind {x : StateM Session α} {g : α → StateM Session β} (hx : Keeps x)
    (hg : ∀ a, Keeps (g a)) : Keeps (x >>= g) :=
  fun s hs => hg _ _ (hx s hs)

lemma keeps_note (records : List LogRecord) : Keeps (note records) := fun _ hs => hs

lemma keeps_action_bind {x : Action α} {g : α → Action β} (hx : Keeps x.run)
    (hg : ∀ a, Keeps (g a).run) : Keeps (x >>= g).run := by
  intro s hs
  have hkept := hx s hs
  rw [run_bind]
  revert hkept
  rcases x.run.run s with ⟨fault | a, s'⟩
  · exact fun hkept => hkept
  · exact fun hkept => hg a s' hkept

lemma keeps_report (outcome : Except Fault α) : Keeps (report outcome).run := by
  cases outcome with
  | ok a => exact keeps_pure _
  | error fault => exact keeps_bind (keeps_note _) fun _ => keeps_pure _

theorem run_compileText {s : Session} (hs : s.Sound) (d : Text) :
    ((compileText d).run.run s).1.map Compiled.format = Descriptor.compile d ∧
      ((compileText d).run.run s).2.Sound := by
  have hout := Cache.outcome_lookUp hs d
  have hsound := Cache.Sound.lookUp hs d
  unfold compileText
  simp only [ExceptT.run, StateT.run, bind, ExceptT.bind, ExceptT.mk, StateT.bind, get,
    getThe, MonadStateOf.get, liftM, monadLift, MonadLift.monadLift, ExceptT.lift, Functor.map,
    StateT.map, StateT.get, ExceptT.bindCont, pure]
  cases hl : s.cache.lookUp d <;> rw [hl] at hout hsound <;> exact ⟨hout, hsound⟩

theorem run_format {s : Session} (hs : s.Sound) (d : Text) :
    ((format (.text d)).run.run s).1 = Descriptor.compile d ∧
      ((format (.text d)).run.run s).2.Sound := by
  have hcompile := run_compileText hs d
  have hrun := run_bind (compileText d) (fun e => pure e.format) s
  change (format (.text d)).run.run s = _ at hrun
  rw [hrun]
  revert hcompile
  rcases (compileText d).run.run s with ⟨fault | e, s'⟩ <;> exact fun hcompile => hcompile

lemma keeps_compile (v : Value) : Keeps (compile v).run := by
  cases v with
  | text d => exact fun s hs => (run_compileText hs d).2
  | absent | bool | int | real | buffer | list | tuple | format => exact keeps_pure _

lemma keeps_format (v : Value) : Keeps (format v).run := by
  cases v with
  | format f => exact keeps_pure _
  | text | absent | bool | int | real | buffer | list | tuple =>
    exact keeps_action_bind (keeps_compile _) fun e => keeps_pure _

/-- The format that a value stands for: itself, or what a text denotes. -/
def formatOf : Value → Except Fault Format
  | .format f => .ok f
  | .text d => Descriptor.compile d
  | v => .error (.descriptorKind v.kindName)

theorem run_formatOf {s : Session} (hs : s.Sound) (v : Value) :
    ((format v).run.run s).1 = formatOf v ∧ ((format v).run.run s).2.Sound := by
  cases v with
  | text d => exact run_format hs d
  | absent | bool | int | real | buffer | list | tuple | format => exact ⟨rfl, hs⟩

lemma run_packFormat [Host] {s : Session} (hs : s.Sound) (f : Format) (values : List Value) :
    ((packFormat f values).run.run s).1 = (f.pack values).map PackedRecord.data ∧
      ((packFormat f values).run.run s).2.Sound := by
  rw [packFormat, run_bind]
  cases f.pack values <;> exact ⟨rfl, hs⟩

/-- The record that values are packed into as a descriptor says. -/
def packAs [Host] (v : Value) (values : List Value) : Except Fault Bytes :=
  (formatOf v).bind fun f => (f.pack values).map PackedRecord.data

/-- Packing a record of its own is packing as the descriptor says. -/
theorem run_pack [Host] {s : Session} (hs : s.Sound) (v : Value) (values : List Value) :
    ((pack v values).run.run s).1 = packAs v values ∧ ((pack v values).run.run s).2.Sound := by
  obtain ⟨hf, hsound⟩ := run_formatOf hs v
  rw [pack, run_bind, packAs, ← hf]
  revert hsound
  rcases (format v).run.run s with ⟨fault | f, s'⟩
  · exact fun hsound => ⟨rfl, hsound⟩
  · exact fun hsound => run_packFormat hsound f values

lemma run_unpackFormat {s : Session} (hs : s.Sound) (f : Format) (data : Bytes) (offset : ℤ) :
    ((unpackFormat f data offset).run.run s).1 = f.unpackFrom data offset ∧
      ((unpackFormat f data offset).run.run s).2.Sound := by
  rw [unpackFormat, run_bind]
  cases f.unpackFrom data offset <;> exact ⟨rfl, hs⟩

/-- A text that is compiled gives the format that it denotes. -/
lemma exists_compile {d : Text} {f : Format} (hd : Descriptor.compile d = .ok f) {s : Session}
    (hs : s.Sound) :
    ∃ e, ((compile (.text d)).run.run s).1 = .ok e ∧ e.format = f ∧
      ((compile (.text d)).run.run s).2.Sound := by
  obtain ⟨hformat, hsound⟩ := run_compileText hs d
  have hcompile : compile (.text d) = compileText d := rfl
  rw [hd] at hformat
  rw [hcompile]
  cases hout : ((compileText d).run.run s).1 with
  | error fault => rw [hout] at hformat; cases hformat
  | ok e =>
    rw [hout] at hformat
    exact ⟨e, rfl, Except.ok.inj hformat, hsound⟩

lemma run_unpackFrom_text {d : Text} {f : Format} (hd : Descriptor.compile d = .ok f)
    {s : Session} (hs : s.Sound) (data : Bytes) (offset : ℤ) :
    ((unpackFrom (.text d) (.ofBytes data) offset).run.run s).1 = f.unpackFrom data offset := by
  obtain ⟨hformat, hsound⟩ := run_format hs d
  have hbuffer : buffer (.ofBytes data) = .ok (.whole .fixed data) := rfl
  rw [unpackFrom, run_bind_of_ok (hformat.trans hd), hbuffer, run_report_ok_bind]
  exact (run_unpackFormat hsound f data offset).1

/-- The values that a record is unpacked to as a descriptor says. -/
def unpackAs (v : Value) (raw : Bytes) : Except Fault (List Value) :=
  (formatOf v).bind fun f => f.unpack raw

theorem keeps_unpackFrom (descriptor source : Value) (offset : ℤ) :
    Keeps (unpackFrom descriptor source offset).run := by
  refine keeps_action_bind (keeps_format _) fun f => keeps_action_bind (keeps_report _) fun b => ?_
  refine keeps_action_bind (keeps_report _) fun values => ?_
  exact keeps_action_bind (keeps_note _) fun _ => keeps_pure _

theorem keeps_unpackAll (descriptor source : Value) : Keeps (unpackAll descriptor source) := by
  have hsource : Keeps (recordSource descriptor source).run :=
    keeps_action_bind (keeps_format _) fun f => keeps_action_bind (keeps_report _) fun _ =>
      keeps_action_bind (keeps_report _) fun b => keeps_pure _
  refine keeps_bind hsource fun r => ?_
  cases r with
  | error fault => exact keeps_pure _
  | ok source => exact keeps_bind (keeps_note _) fun _ => keeps_pure _

/-- A format that packs into a value, or the fault of what is no descriptor. -/
def targetOf (compiled : Except Fault Format) (b : Buffer) (offset : ℤ) (values : List Value) :
    Target :=
  match compiled with
  | .error fault => ⟨.buffer b, .error fault⟩
  | .ok f =>
    ⟨.buffer (f.packInto b offset values).buffer,
      (f.packInto b offset values).outcome.map fun _ => ()⟩

/-- Packing into a buffer is packing as the descriptor says. -/
theorem run_packInto {s : Session} (hs : s.Sound) (d : Text) (b : Buffer) (offset : ℤ)
    (values : List Value) :
    ((packInto (.text d) (.buffer b) offset values).run s).1 =
        targetOf (Descriptor.compile d) b offset values ∧
      ((packInto (.text d) (.buffer b) offset values).run s).2.Sound := by
  obtain ⟨hf, hsound⟩ := run_format hs d
  have htarget := run_bind (format (.text d)) (fun f => report (buffer (.buffer b)) >>= fun b =>
    pure (f, b)) s
  change (packTarget (.text d) (.buffer b)).run.run s = _ at htarget
  simp only [packInto, StateT.run_bind, htarget]
  generalize (format (.text d)).run.run s = r at *
  obtain ⟨fault | f, s'⟩ := r
  · rw [← hf]
    exact ⟨rfl, hsound⟩
  · rw [← hf]
    exact ⟨rfl, hsound⟩

end Session

end BinaryLayout
