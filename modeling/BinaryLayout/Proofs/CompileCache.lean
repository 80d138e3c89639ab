import BinaryLayout.Proofs.Validity
import Mathlib.Data.Finset.Card
import Mathlib.Data.List.Dedup
import Mathlib.Data.List.Nodup
import Mathlib.Data.Finset.Dedup
import Mathlib.Data.List.Permutation

/-!
# What the cache keeps

A call that compiles a text makes its compilation the most recent one, whether it was kept or is
new. So the order of the cache is decided by the calls alone: it is the compilations that they
gave, of each text the latest, and the latest first. The cache is as much of that list as it has
room for. Hence a compilation is kept as long as fewer other texts have been compiled since than
there is room for.
-/
namespace BinaryLayout

/-! ## Histories of calls -/

/-- A call that compiles a value, and what came of it. -/
structure Call where
  argument : Value
  outcome : Except Fault Compiled

namespace Call

def text? (c : Call) : Option Text :=
  match c.argument with
  | .text d => some d
  | _ => none

/-- The text that was compiled, if that succeeded. -/
def served? (c : Call) : Option Text := c.outcome.toOption.bind fun _ => c.text?

end Call

def served (calls : List Call) : List Text := calls.filterMap Call.served?

/-- Calls in a session, the latest first, and the session after them. -/
structure History where
  calls : List Call
  session : Session

namespace History

def start (log : List LogRecord) : History := ⟨[], ⟨.empty, log⟩⟩

def next (h : History) (v : Value) : History :=
  ⟨⟨v, ((Session.compile v).run.run h.session).1⟩ :: h.calls,
    ((Session.compile v).run.run h.session).2⟩

/-- The calls with the given arguments, in order. -/
def ofCalls (log : List LogRecord) (arguments : List Value) : History :=
  arguments.foldl next (start log)

end History

/-- The latest call that succeeded with the text gave this compilation, and the calls since then
have succeeded with fewer texts than the cache has room for. -/
def Kept (calls : List Call) (d : Text) (e : Compiled) : Prop :=
  ∃ newer older, calls = newer ++ ⟨.text d, .ok e⟩ :: older ∧ d ∉ served newer ∧
    (served newer).toFinset.card < Cache.capacity

/-- The compilations that calls gave, of each text the latest, and the latest first. -/
def recency : List Call → List Compiled
  | [] => []
  | c :: older =>
    match c.outcome with
    | .ok e => e :: (recency older).filter fun other => other.descriptor ≠ e.descriptor
    | .error _ => recency older

/-! ## Recency -/

/-- What a call gives is a compilation of its argument, of a number below the bound. -/
def Call.Faithful (misses : ℕ) (c : Call) : Prop :=
  ∀ e, c.outcome = .ok e → c.argument = .text e.descriptor ∧
    Descriptor.compile e.descriptor = .ok e.format ∧ e.serial < misses

lemma Call.Faithful.mono {misses misses' : ℕ} {c : Call} (hc : c.Faithful misses)
    (h : misses ≤ misses') : c.Faithful misses' :=
  fun e he => ⟨(hc e he).1, (hc e he).2.1, (hc e he).2.2.trans_le h⟩

section Recency

variable {misses : ℕ} {calls : List Call} {d : Text} {e : Compiled}

lemma served_cons (c : Call) (older : List Call) :
    served (c :: older) = c.served?.toList ++ served older := by
  simp only [served, List.filterMap_cons]
  cases c.served? <;> rfl

lemma Call.Faithful.served? {c : Call} (hc : c.Faithful misses) (h : c.outcome = .ok e) :
    c.served? = some e.descriptor := by
  simp only [Call.served?, h, Call.text?, (hc e h).1]
  rfl

lemma Call.served?_of_error {c : Call} {fault : Fault} (h : c.outcome = .error fault) :
    c.served? = none := by
  simp only [Call.served?, h]
  rfl

lemma recency_of_ok {c : Call} (h : c.outcome = .ok e) (older : List Call) :
    recency (c :: older) =
      e :: (recency older).filter fun other => other.descriptor ≠ e.descriptor := by
  rw [recency, h]

lemma recency_of_error {c : Call} {fault : Fault} (h : c.outcome = .error fault)
    (older : List Call) : recency (c :: older) = recency older := by
  rw [recency, h]

lemma exists_call_of_mem_recency (h : e ∈ recency calls) : ∃ c ∈ calls, c.outcome = .ok e := by
  induction calls with
  | nil => exact absurd h List.not_mem_nil
  | cons c older ih =>
    cases hc : c.outcome with
    | error fault =>
      rw [recency_of_error hc] at h
      obtain ⟨c', hc', hout⟩ := ih h
      exact ⟨c', List.mem_cons_of_mem _ hc', hout⟩
    | ok e' =>
      rw [recency_of_ok hc] at h
      obtain rfl | h := List.mem_cons.mp h
      · exact ⟨c, List.mem_cons_self, hc⟩
      · obtain ⟨c', hc', hout⟩ := ih (List.mem_of_mem_filter h)
        exact ⟨c', List.mem_cons_of_mem _ hc', hout⟩

lemma nodup_recency (calls : List Call) : ((recency calls).map Compiled.descriptor).Nodup := by
  induction calls with
  | nil => exact List.nodup_nil
  | cons c older ih =>
    cases hc : c.outcome with
    | error fault => rwa [recency_of_error hc]
    | ok e =>
      rw [recency_of_ok hc, List.map_cons, List.nodup_cons]
      refine ⟨?_, ih.sublist (List.Sublist.map _ List.filter_sublist)⟩
      simp

lemma mem_map_recency (hc : ∀ c ∈ calls, c.Faithful misses) :
    d ∈ (recency calls).map Compiled.descriptor ↔ d ∈ served calls := by
  induction calls with
  | nil => rfl
  | cons c older ih =>
    obtain ⟨hfirst, holder⟩ := List.forall_mem_cons.mp hc
    rw [served_cons, List.mem_append, ← ih holder]
    cases hout : c.outcome with
    | error fault => simp [recency_of_error hout, Call.served?_of_error hout]
    | ok e =>
      rw [recency_of_ok hout, hfirst.served? hout]
      by_cases hd : d = e.descriptor
      · simp [hd]
      · have hne : d ∉ (some e.descriptor).toList := by simpa using hd
        rw [List.map_cons, List.mem_cons, or_iff_right hd, or_iff_right hne, List.mem_map,
          List.mem_map]
        constructor
        · rintro ⟨e', he', rfl⟩
          exact ⟨e', List.mem_of_mem_filter he', rfl⟩
        · rintro ⟨e', he', rfl⟩
          exact ⟨e', List.mem_filter.mpr ⟨he', by simpa using hd⟩, rfl⟩

lemma length_recency (hc : ∀ c ∈ calls, c.Faithful misses) :
    (recency calls).length = (served calls).toFinset.card := by
  rw [← List.length_map (f := Compiled.descriptor),
    ← List.toFinset_card_of_nodup (nodup_recency calls)]
  congr 1
  ext d
  rw [List.mem_toFinset, List.mem_toFinset, mem_map_recency hc]

/-- The compilation of a text comes behind those of the texts since then. -/
lemma recency_append {newer older : List Call} (hd : d ∉ served newer)
    (hc : ∀ c ∈ newer, c.Faithful misses) (he : e.descriptor = d) :
    ∃ others, recency (newer ++ ⟨.text d, .ok e⟩ :: older) = recency newer ++ e :: others := by
  induction newer with
  | nil => exact ⟨_, rfl⟩
  | cons c newer ih =>
    rw [served_cons, List.mem_append, not_or] at hd
    obtain ⟨hfirst, hnewer⟩ := List.forall_mem_cons.mp hc
    obtain ⟨others, hothers⟩ := ih hd.2 hnewer
    cases hout : c.outcome with
    | error fault => exact ⟨others, by rw [List.cons_append, recency_of_error hout, hothers,
        recency_of_error hout]⟩
    | ok e' =>
      have hne : e.descriptor ≠ e'.descriptor := by
        have hnot := hd.1
        rw [hfirst.served? hout, Option.toList_some, List.mem_singleton] at hnot
        exact he ▸ hnot
      refine ⟨others.filter fun other => other.descriptor ≠ e'.descriptor, ?_⟩
      rw [List.cons_append, recency_of_ok hout, hothers, recency_of_ok hout, List.filter_append,
        List.filter_cons_of_pos (by simpa using hne), List.cons_append]

/-- Where a call succeeded with a text, there is a latest one that did. -/
lemma exists_latest (hc : ∀ c ∈ calls, c.Faithful misses) (hd : d ∈ served calls) :
    ∃ newer e older, calls = newer ++ ⟨.text d, .ok e⟩ :: older ∧ d ∉ served newer := by
  induction calls with
  | nil => exact absurd hd List.not_mem_nil
  | cons c older ih =>
    obtain ⟨hfirst, holder⟩ := List.forall_mem_cons.mp hc
    by_cases hserved : c.served? = some d
    · cases hout : c.outcome with
      | error fault =>
        rw [Call.served?_of_error hout] at hserved
        cases hserved
      | ok e =>
        rw [hfirst.served? hout] at hserved
        cases hserved
        have hself : c = ⟨.text e.descriptor, .ok e⟩ := by
          rw [← hout, ← (hfirst e hout).1]
        exact ⟨[], e, older, by rw [hself]; rfl, List.not_mem_nil⟩
    · rw [served_cons, List.mem_append] at hd
      have hnot : d ∉ c.served?.toList := by simpa using hserved
      obtain ⟨newer, e, older, rfl, hnewer⟩ := ih holder (hd.resolve_left hnot)
      refine ⟨c :: newer, e, older, rfl, ?_⟩
      rw [served_cons, List.mem_append, not_or]
      exact ⟨hnot, hnewer⟩

end Recency

/-! ## As much of a list as there is room for -/

section Room

variable {front back entries : List Compiled} {e : Compiled} {n : ℕ}

lemma filter_of_nodup (h : ((front ++ e :: back).map Compiled.descriptor).Nodup) :
    (front ++ e :: back).filter (fun other => other.descriptor ≠ e.descriptor) =
      front ++ back := by
  rw [List.map_append, List.map_cons] at h
  have hfront := (List.nodup_cons.mp (List.nodup_middle.mp h)).1
  have hne : ∀ other ∈ front ++ back, other.descriptor ≠ e.descriptor := by
    intro other hother heq
    refine hfront (List.mem_append.mpr ?_)
    rw [← heq]
    exact (List.mem_append.mp hother).imp List.mem_map_of_mem List.mem_map_of_mem
  rw [List.filter_append, List.filter_cons_of_neg (by simp), ← List.filter_append,
    List.filter_eq_self]
  simpa using hne

lemma take_of_lt (h : front.length < n) :
    (front ++ e :: back).take n = front ++ e :: back.take (n - (front.length + 1)) := by
  obtain ⟨k, rfl⟩ : ∃ k, n = front.length + (k + 1) := ⟨n - (front.length + 1), by omega⟩
  rw [List.take_length_add_append, List.take_succ_cons]
  congr 3
  omega

/-- A kept compilation that moves to the front pushes nothing out. -/
lemma cons_erase_take (hn : ((front ++ e :: back).map Compiled.descriptor).Nodup)
    (h : front.length < n) :
    e :: ((front ++ e :: back).take n).erase e = (e :: (front ++ back)).take n := by
  have hfront : e ∉ front := by
    intro he
    rw [List.map_append, List.map_cons] at hn
    exact (List.nodup_cons.mp (List.nodup_middle.mp hn)).1
      (List.mem_append_left _ (List.mem_map_of_mem he))
  rw [take_of_lt h, List.erase_append_right _ hfront, List.erase_cons_head]
  obtain ⟨k, rfl⟩ : ∃ k, n = front.length + k + 1 := ⟨n - (front.length + 1), by omega⟩
  rw [List.take_succ_cons, List.take_length_add_append]
  congr 3
  omega

/-- A new compilation in front pushes out the last one, unless there is room left or an older
compilation of the same text was pushed out before. -/
lemma take_cons_take (hn : (entries.map Compiled.descriptor).Nodup)
    (h : ∀ other ∈ entries.take n, other.descriptor ≠ e.descriptor) :
    (e :: entries.take n).take n =
      (e :: entries.filter fun other => other.descriptor ≠ e.descriptor).take n := by
  cases n with
  | zero => rfl
  | succ n =>
    rw [List.take_succ_cons, List.take_succ_cons, List.take_take, Nat.min_eq_left (Nat.le_succ n)]
    congr 1
    by_cases hall : ∀ other ∈ entries, other.descriptor ≠ e.descriptor
    · rw [List.filter_eq_self.mpr (by simpa using hall)]
    · obtain ⟨other, hother, hd⟩ : ∃ other ∈ entries, other.descriptor = e.descriptor := by
        simpa using hall
      obtain ⟨front, back, rfl⟩ := List.append_of_mem hother
      have hlength : n + 1 ≤ front.length := by
        by_contra hlt
        refine h other ?_ hd
        rw [take_of_lt (by omega)]
        exact List.mem_append_right _ List.mem_cons_self
      rw [← hd, filter_of_nodup hn, List.take_append_of_le_length (by omega),
        List.take_append_of_le_length (by omega)]

/-- The compilation of a text is found if it is not too far behind. -/
lemma find?_take (h : ∀ other ∈ front, other.descriptor ≠ e.descriptor) :
    ((front ++ e :: back).take n).find? (fun other => other.descriptor = e.descriptor) =
      if front.length < n then some e else none := by
  have hnone : front.find? (fun other => other.descriptor = e.descriptor) = none := by
    simpa using h
  split
  · next hlt =>
    rw [take_of_lt hlt, List.find?_append, hnone, Option.none_or, List.find?_cons_of_pos (by simp)]
  · next hge =>
    rw [List.take_append_of_le_length (by omega), List.find?_eq_none]
    intro other hother
    simpa using h other (List.mem_of_mem_take hother)

end Room

/-! ## One call -/

namespace Session

/-- What compiling a text does: it is found, or compiled, or refused. -/
inductive Compiles (s : Session) (d : Text) : Except Fault Compiled × Session → Prop where
  | hit {e : Compiled} : s.cache.find? d = some e →
      Compiles s d (.ok e, { s with cache := s.cache.touch e })
  | compiled {f : Format} : s.cache.find? d = none → Descriptor.compile d = .ok f →
      Compiles s d (.ok ⟨d, f, s.cache.misses⟩,
        { s with cache := s.cache.insert d f, log := s.log ++ [.compiled f] })
  | failed {fault : Fault} : s.cache.find? d = none → Descriptor.compile d = .error fault →
      Compiles s d (.error fault, { s with cache := s.cache.miss })

/-- What looking a text up is answered with, and the session that it leaves. -/
def answered (s : Session) : Lookup → Except Fault Compiled × Session
  | .hit entry cache => (.ok entry, { s with cache := cache })
  | .compiled entry cache =>
    (.ok entry, { s with cache := cache, log := s.log ++ [.compiled entry.format] })
  | .failed fault cache => (.error fault, { s with cache := cache })

lemma run_compile_text (s : Session) (d : Text) :
    (compile (.text d)).run.run s = s.answered (s.cache.lookUp d) := by
  simp only [compile, compileText, ExceptT.run, StateT.run, bind, ExceptT.bind, ExceptT.mk,
    StateT.bind, get, getThe, MonadStateOf.get, liftM, monadLift, MonadLift.monadLift,
    ExceptT.lift, Functor.map, StateT.map, StateT.get, ExceptT.bindCont, pure]
  cases s.cache.lookUp d <;> rfl

lemma compiles_text (s : Session) (d : Text) :
    s.Compiles d ((compile (.text d)).run.run s) := by
  rw [run_compile_text, Cache.lookUp]
  cases hf : s.cache.find? d with
  | some e => exact .hit hf
  | none =>
    cases hd : Descriptor.compile d with
    | ok f => exact .compiled hf hd
    | error fault => exact .failed hf hd

/-- What a value is compiled to where nothing is kept. -/
def uncached : Value → Except Fault Format
  | .text d => Descriptor.compile d
  | v => .error (.descriptorKind v.kindName)

end Session

namespace History

/-- The cache is the recent compilations, as many as there is room for, and its counts are those
of the calls. -/
structure Tracked (h : History) : Prop where
  entries : h.session.cache.entries = (recency h.calls).take Cache.capacity
  counts : h.session.cache.hits + h.session.cache.misses = h.calls.countP fun c => c.text?.isSome
  faithful : ∀ c ∈ h.calls, c.Faithful h.session.cache.misses

lemma tracked_start (log : List LogRecord) : (start log).Tracked :=
  ⟨rfl, rfl, fun _ hc => absurd hc List.not_mem_nil⟩

variable {h : History} {d : Text} {e : Compiled}

lemma Tracked.sound (ht : h.Tracked) : h.session.Sound := by
  intro e he
  rw [ht.entries] at he
  obtain ⟨c, hc, hout⟩ := exists_call_of_mem_recency (List.mem_of_mem_take he)
  exact (ht.faithful c hc e hout).2.1

/-- The latest compilation of a text is behind those of the texts since then, one of each. -/
lemma Tracked.recency_of_latest (ht : h.Tracked) {newer older : List Call}
    (hcalls : h.calls = newer ++ ⟨.text d, .ok e⟩ :: older) (hd : d ∉ served newer) :
    d = e.descriptor ∧ (recency newer).length = (served newer).toFinset.card ∧
      (∀ other ∈ recency newer, other.descriptor ≠ d) ∧
      ∃ others, recency h.calls = recency newer ++ e :: others := by
  have hfaithful := ht.faithful
  rw [hcalls] at hfaithful
  have hnewer := fun c hc => hfaithful c (List.mem_append_left _ hc)
  have hself := hfaithful ⟨.text d, .ok e⟩ (List.mem_append_right _ List.mem_cons_self) e rfl
  have he : d = e.descriptor := Value.text.inj hself.1
  refine ⟨he, length_recency hnewer, ?_, hcalls ▸ recency_append hd hnewer he.symm⟩
  intro other hother heq
  exact hd ((mem_map_recency hnewer).mp (heq ▸ List.mem_map_of_mem hother))

/-- It is found unless too many other texts have been compiled since. -/
lemma Tracked.find?_of_latest (ht : h.Tracked) {newer older : List Call}
    (hcalls : h.calls = newer ++ ⟨.text d, .ok e⟩ :: older) (hd : d ∉ served newer) :
    h.session.cache.find? d =
      if (served newer).toFinset.card < Cache.capacity then some e else none := by
  obtain ⟨rfl, hlength, hne, others, hothers⟩ := ht.recency_of_latest hcalls hd
  rw [Cache.find?, ht.entries, hothers, find?_take hne, hlength]

/-- What is found in the cache is what the calls say is kept. -/
theorem Tracked.find?_eq_some_iff (ht : h.Tracked) :
    h.session.cache.find? d = some e ↔ Kept h.calls d e := by
  constructor
  · intro hf
    obtain ⟨hmem, hd⟩ := Cache.find?_eq_some hf
    rw [ht.entries] at hmem
    have hserved : d ∈ served h.calls := by
      rw [← mem_map_recency ht.faithful, ← hd]
      exact List.mem_map_of_mem (List.mem_of_mem_take hmem)
    obtain ⟨newer, e', older, hcalls, hnewer⟩ := exists_latest ht.faithful hserved
    rw [ht.find?_of_latest hcalls hnewer] at hf
    split at hf
    · next hcard =>
      obtain rfl := Option.some.inj hf
      exact ⟨newer, older, hcalls, hnewer, hcard⟩
    · cases hf
  · rintro ⟨newer, older, hcalls, hnewer, hcard⟩
    rw [ht.find?_of_latest hcalls hnewer, if_pos hcard]

lemma countP_text (d : Text) (outcome : Except Fault Compiled) (calls : List Call) :
    (⟨.text d, outcome⟩ :: calls : List Call).countP (fun c => c.text?.isSome) =
      calls.countP (fun c => c.text?.isSome) + 1 :=
  List.countP_cons_of_pos rfl

lemma Tracked.hit (ht : h.Tracked) (hf : h.session.cache.find? d = some e) :
    Tracked ⟨⟨.text d, .ok e⟩ :: h.calls,
      { h.session with cache := h.session.cache.touch e }⟩ := by
  obtain ⟨newer, older, hcalls, hd, hcard⟩ := ht.find?_eq_some_iff.mp hf
  obtain ⟨rfl, hlength, -, others, hothers⟩ := ht.recency_of_latest hcalls hd
  have hnodup := nodup_recency h.calls
  rw [hothers] at hnodup
  rw [← hlength] at hcard
  have hgiven : (⟨.text e.descriptor, .ok e⟩ : Call) ∈ h.calls := by
    rw [hcalls]
    exact List.mem_append_right _ List.mem_cons_self
  refine ⟨?_, ?_, List.forall_mem_cons.mpr ⟨ht.faithful _ hgiven, ht.faithful⟩⟩
  · rw [recency_of_ok rfl, hothers, filter_of_nodup hnodup, ← cons_erase_take hnodup hcard,
      ← hothers, ← ht.entries]
    rfl
  · rw [countP_text, ← ht.counts]
    exact Nat.add_right_comm _ _ _

lemma Tracked.compiled (ht : h.Tracked) {f : Format} (hf : h.session.cache.find? d = none)
    (hd : Descriptor.compile d = .ok f) :
    Tracked ⟨⟨.text d, .ok ⟨d, f, h.session.cache.misses⟩⟩ :: h.calls,
      { h.session with
        cache := h.session.cache.insert d f, log := h.session.log ++ [.compiled f] }⟩ := by
  refine ⟨?_, ?_, ?_⟩
  · have hnone : ∀ other ∈ (recency h.calls).take Cache.capacity, other.descriptor ≠ d := by
      rw [← ht.entries]
      simpa [Cache.find?] using hf
    rw [recency_of_ok rfl, ← take_cons_take (nodup_recency h.calls) hnone, ← ht.entries]
    rfl
  · rw [countP_text, ← ht.counts]
    rfl
  · refine List.forall_mem_cons.mpr ⟨?_, fun c hc => (ht.faithful c hc).mono (Nat.le_succ _)⟩
    rintro e ⟨rfl⟩
    exact ⟨rfl, hd, Nat.lt_succ_self _⟩

lemma Tracked.failed (ht : h.Tracked) (d : Text) (fault : Fault) :
    Tracked ⟨⟨.text d, .error fault⟩ :: h.calls,
      { h.session with cache := h.session.cache.miss }⟩ := by
  refine ⟨?_, ?_, ?_⟩
  · rw [recency_of_error rfl, ← ht.entries]
    rfl
  · rw [countP_text, ← ht.counts]
    rfl
  · exact List.forall_mem_cons.mpr ⟨nofun, fun c hc => (ht.faithful c hc).mono (Nat.le_succ _)⟩

lemma Tracked.refused (ht : h.Tracked) {v : Value} (hv : ∀ d, v ≠ .text d) (fault : Fault) :
    Tracked ⟨⟨v, .error fault⟩ :: h.calls, h.session⟩ := by
  have htext : (⟨v, .error fault⟩ : Call).text? = none := by
    cases v with
    | text d => exact absurd rfl (hv d)
    | absent | bool | int | real | buffer | list | tuple | format => rfl
  refine ⟨?_, ?_, List.forall_mem_cons.mpr ⟨nofun, ht.faithful⟩⟩
  · rw [recency_of_error rfl, ← ht.entries]
  · have hcounts := ht.counts
    rwa [List.countP_cons_of_neg (by simp [htext])]

/-- Every call keeps the cache in step with the calls. -/
theorem Tracked.next (ht : h.Tracked) (v : Value) : (h.next v).Tracked := by
  by_cases htext : ∃ d, v = .text d
  · obtain ⟨d, rfl⟩ := htext
    have hc := h.session.compiles_text d
    unfold History.next
    generalize (Session.compile (.text d)).run.run h.session = r at hc ⊢
    cases hc with
    | hit hf => exact ht.hit hf
    | compiled hf hd => exact ht.compiled hf hd
    | failed hf hd => exact ht.failed d _
  · have hv : ∀ d, v ≠ .text d := fun d hd => htext ⟨d, hd⟩
    rw [History.next, Session.compile_of_ne_text hv]
    exact ht.refused hv _

/-- So do the calls of a whole run. -/
theorem tracked_ofCalls (log : List LogRecord) (arguments : List Value) :
    (ofCalls log arguments).Tracked := by
  induction arguments using List.reverseRecOn with
  | nil => exact tracked_start log
  | append_singleton arguments v ih =>
    rw [ofCalls, List.foldl_append]
    exact ih.next v

lemma arguments_ofCalls (log : List LogRecord) (arguments : List Value) :
    (ofCalls log arguments).calls.map Call.argument = arguments.reverse := by
  induction arguments using List.reverseRecOn with
  | nil => rfl
  | append_singleton arguments v ih =>
    rw [List.reverse_concat, ← ih, ofCalls, List.foldl_append]
    rfl

/-- What a call does after others. A text that is kept is answered with what is kept, and counts
as a hit. Any other text counts as a miss: it is answered with a compilation that no call has
given before, which is logged, or refused with nothing kept or logged for it. What is no text is
refused with nothing done. -/
inductive Answers (h : History) : Value → Except Fault Compiled × Session → Prop where
  | hit {d : Text} {e : Compiled} {s : Session} : Kept h.calls d e →
      s.cache.hits = h.session.cache.hits + 1 → s.cache.misses = h.session.cache.misses →
      s.log = h.session.log → Answers h (.text d) (.ok e, s)
  | compiled {d : Text} {e : Compiled} {s : Session} : (∀ other, ¬Kept h.calls d other) →
      Descriptor.compile d = .ok e.format → (∀ c ∈ h.calls, c.outcome ≠ .ok e) →
      s.cache.hits = h.session.cache.hits → s.cache.misses = h.session.cache.misses + 1 →
      s.log = h.session.log ++ [.compiled e.format] → Answers h (.text d) (.ok e, s)
  | failed {d : Text} {fault : Fault} : (∀ other, ¬Kept h.calls d other) →
      Descriptor.compile d = .error fault →
      Answers h (.text d) (.error fault, { h.session with cache := h.session.cache.miss })
  | refused {v : Value} : (∀ d, v ≠ .text d) →
      Answers h v (.error (.descriptorKind v.kindName), h.session)

lemma Tracked.answers (ht : h.Tracked) (v : Value) :
    h.Answers v ((Session.compile v).run.run h.session) := by
  by_cases htext : ∃ d, v = .text d
  · obtain ⟨d, rfl⟩ := htext
    have hc := h.session.compiles_text d
    have hnone : h.session.cache.find? d = none → ∀ other, ¬Kept h.calls d other := by
      intro hf other hkept
      rw [ht.find?_eq_some_iff.mpr hkept] at hf
      cases hf
    generalize (Session.compile (.text d)).run.run h.session = r at hc ⊢
    cases hc with
    | hit hf => exact .hit (ht.find?_eq_some_iff.mp hf) rfl rfl rfl
    | compiled hf hd =>
      refine .compiled (hnone hf) hd (fun c hc hout => ?_) rfl rfl rfl
      exact absurd (ht.faithful c hc _ hout).2.2 (lt_irrefl _)
    | failed hf hd => exact .failed (hnone hf) hd
  · have hv : ∀ d, v ≠ .text d := fun d hd => htext ⟨d, hd⟩
    rw [Session.compile_of_ne_text hv]
    exact .refused hv

/-- A call is a hit just for a text that is kept. -/
lemma Tracked.hit_iff (ht : h.Tracked) :
    ((Session.compile (.text d)).run.run h.session).1 = .ok e ∧
      ((Session.compile (.text d)).run.run h.session).2.cache.hits =
        h.session.cache.hits + 1 ↔ Kept h.calls d e := by
  rw [← ht.find?_eq_some_iff]
  have hc := h.session.compiles_text d
  generalize (Session.compile (.text d)).run.run h.session = r at hc ⊢
  cases hc with
  | hit hf =>
    rw [hf]
    exact ⟨fun h => congrArg some (Except.ok.inj h.1),
      fun h => ⟨congrArg _ (Option.some.inj h), rfl⟩⟩
  | compiled hf hd =>
    rw [hf]
    exact ⟨fun h => absurd h.2 (Nat.succ_ne_self _).symm, nofun⟩
  | failed hf hd =>
    rw [hf]
    exact ⟨nofun, nofun⟩

/-- After any calls from an empty cache, whatever is compiled next gives what it would give
without a cache, and is found in the cache just if the latest compilation of the same text has
been followed by those of fewer other texts than there is room for. The cache counts the texts
it was asked for, and is as large as there were texts to keep, or full. -/
theorem compile_cached (log : List LogRecord) (arguments : List Value) (v : Value) :
    ∃ calls s, ofCalls log arguments = ⟨calls, s⟩ ∧
      calls.map Call.argument = arguments.reverse ∧
      s.cache.hits + s.cache.misses = calls.countP (fun c => c.text?.isSome) ∧
      s.cache.size = min Cache.capacity (served calls).toFinset.card ∧
      ((Session.compile v).run.run s).1.map Compiled.format = Session.uncached v ∧
      (∀ d e, v = .text d → (((Session.compile v).run.run s).1 = .ok e ∧
        ((Session.compile v).run.run s).2.cache.hits = s.cache.hits + 1 ↔ Kept calls d e)) ∧
      Answers ⟨calls, s⟩ v ((Session.compile v).run.run s) := by
  have ht := tracked_ofCalls log arguments
  have harguments := arguments_ofCalls log arguments
  generalize ofCalls log arguments = h at ht harguments
  refine ⟨h.calls, h.session, rfl, harguments, ht.counts, ?_, ?_, ?_, ht.answers v⟩
  · rw [Cache.size, ht.entries, List.length_take, length_recency ht.faithful]
  · cases v with
    | text d => exact (Session.run_compileText ht.sound d).1
    | absent | bool | int | real | buffer | list | tuple | format => rfl
  · rintro d e rfl
    exact ht.hit_iff

/-- A text that has just been compiled is found the next time. -/
theorem compile_cached_again :
    ∃ calls s e, ofCalls [] [.text "<4I"] = ⟨calls, s⟩ ∧ calls = [⟨.text "<4I", .ok e⟩] ∧
      ((Session.compile (.text "<4I")).run.run s).1 = .ok e ∧
      ((Session.compile (.text "<4I")).run.run s).2.cache.hits = s.cache.hits + 1 := by
  obtain ⟨calls, s, hcalls, -, -, -, -, hhit, -⟩ := compile_cached [] [.text "<4I"] (.text "<4I")
  let e : Compiled := ⟨"<4I", ⟨.littleEndian, [⟨4, .known .uint32⟩], "<4I"⟩, 0⟩
  have hcompile : Descriptor.compile "<4I" = .ok e.format := by cbv
  have hfirst : (ofCalls [] [.text "<4I"]).calls = [⟨.text "<4I", .ok e⟩] := by
    show [Call.mk _ ((Session.compile (.text "<4I")).run.run .empty).1] = _
    rw [Session.run_compile_text, Cache.lookUp, hcompile]
    rfl
  obtain rfl : calls = [⟨.text "<4I", .ok e⟩] := by rw [← hfirst, hcalls]
  have hkept : Kept [⟨.text "<4I", .ok e⟩] "<4I" e :=
    ⟨[], [], rfl, List.not_mem_nil, by decide⟩
  exact ⟨_, s, e, hcalls, rfl, (hhit _ e rfl).mpr hkept⟩

end History

end BinaryLayout
