import BinaryLayout.Proofs.CompileCache
import BinaryLayout.Proofs.PackingDemands

/-!
# What the log tells of a record

The records of an operation come from three places: the walk over the tokens knows of values that
are left over, the operation of the fields it has written or read, and a field of the detail
behind a refusal. A fault ends the walk at any token or value, so that what is logged depends on
how far it came. The counts are taken from the writes, the values left over and the values read;
all of them agree with the number of entries in the layout.
-/
namespace BinaryLayout

open Fault

/-- There is a single record, an error with this text. -/
def LogRecord.OneError (records : List LogRecord) (text : Text) : Prop :=
  ∃ r, records = [r] ∧ r.level = .error ∧ r.message = text

/-- The records tell how an operation ended: they are those of its success, or one error with the
detail behind its refusal, or none where there is no such detail. -/
structure LogRecord.Tell (records : List LogRecord) (outcome : Except Fault α)
    (success : List LogRecord) (detail : Text → Prop) : Prop where
  done : ∀ a, outcome = .ok a → records = success
  detailed : ∀ text, detail text → (∃ fault, outcome = .error fault) ∧ OneError records text
  silent : ∀ fault, outcome = .error fault → (∀ text, ¬detail text) → records = []

/-- The records of success tell of it, if there is nothing that would have been a detail. -/
lemma LogRecord.Tell.of_ok {records success : List LogRecord} {outcome : Except Fault α} {a : α}
    (h : outcome = .ok a) (hrecords : records = success) {detail : Text → Prop}
    (hdetail : ∀ text, ¬detail text) : Tell records outcome success detail where
  done _ _ := hrecords
  detailed text ht := absurd ht (hdetail text)
  silent fault hfault := by cases h.symm.trans hfault

/-- What an operation gives makes no difference to what its records tell. -/
lemma LogRecord.Tell.map {records success : List LogRecord} {outcome : Except Fault α}
    {detail : Text → Prop} (h : Tell records outcome success detail) (g : α → β) :
    Tell records (outcome.map g) success detail := by
  cases outcome with
  | ok a =>
    refine .of_ok rfl (h.done a rfl) fun text ht => ?_
    obtain ⟨⟨_, ⟨⟩⟩, -⟩ := h.detailed text ht
  | error fault =>
    exact ⟨fun _ ha => (by cases ha), fun text ht => ⟨⟨fault, rfl⟩, (h.detailed text ht).2⟩,
      fun _ _ => h.silent fault rfl⟩

lemma Value.eq_buffer {v : Value} {b : Buffer} (h : v.buffer? = some b) : v = .buffer b := by
  cases v with
  | buffer b' => rw [Option.some.inj h]
  | absent | bool | int | real | text | list | tuple | format => cases h

/-! ## Refused values -/

namespace Fault

lemma oneError_records {fault : Fault} {text : Text} (h : fault.detail? = some text) :
    LogRecord.OneError fault.records text :=
  ⟨.detail text, by rw [records, h]; rfl, rfl, rfl⟩

lemma records_of_detail?_eq_none {fault : Fault} (h : fault.detail? = none) :
    fault.records = [] := by
  rw [records, h]
  rfl

/-- The records of a fault tell of a refusal whose detail is that of the fault. -/
lemma tell_records {outcome : Except Fault α} {fault : Fault} (h : outcome = .error fault)
    {success : List LogRecord} {detail : Text → Prop}
    (hdetail : ∀ text, detail text → fault.detail? = some text)
    (hnone : (∃ text, detail text) ∨ fault.detail? = none) :
    LogRecord.Tell fault.records outcome success detail where
  done a ha := by cases h.symm.trans ha
  detailed text ht := ⟨⟨fault, h⟩, oneError_records (hdetail text ht)⟩
  silent other _ hall := by
    obtain ⟨text, ht⟩ | hquiet := hnone
    · exact absurd ht (hall text)
    · exact records_of_detail?_eq_none hquiet

/-- What is logged does not depend on whether a message can show the value. -/
@[simp]
lemma detail?_limited (fault : Fault) : fault.limited.detail? = fault.detail? := by
  unfold limited
  split <;> try split
  all_goals rfl

end Fault

namespace Field

variable {s : Specifier} {order : ByteOrder} {v : Value} {misfit : Misfit} {fault : Fault}

/-- The value was to become the bytes of a number and did not. -/
def Misfits (s : Specifier) (order : ByteOrder) (v : Value) (misfit : Misfit) : Prop :=
  (s.kind = .int ∧ encodeInteger s order.endian v = .error misfit) ∨
    s.kind = .real ∧ encodeReal s order.endian v = .error misfit

lemma encode_of_misfits (h : Misfits s order v misfit) :
    encode s v order = .error (unpackable v s misfit).limited := by
  obtain ⟨hk, hmisfit⟩ | ⟨hk, hmisfit⟩ := h <;> simp only [encode, hk, hmisfit, reportPacking]

lemma Misfits.ne_string (h : Misfits s order v misfit) : s.kind ≠ .string := by
  obtain ⟨hk, -⟩ | ⟨hk, -⟩ := h <;> simp [hk]

/-- Only a number that does not fit has a detail behind its refusal. -/
lemma misfits_or_detail?_eq_none (h : encode s v order = .error fault) :
    (∃ misfit, Misfits s order v misfit) ∨ fault.detail? = none := by
  unfold encode at h
  cases hk : s.kind with
  | pad | string =>
    simp only [hk] at h
    cases h
    exact .inr rfl
  | char =>
    simp only [hk] at h
    cases hb : v.byte? with
    | some b => rw [hb] at h; cases h
    | none =>
      rw [hb] at h
      cases h
      exact .inr (detail?_limited (notByte v))
  | int =>
    simp only [hk] at h
    cases hraw : encodeInteger s order.endian v with
    | ok raw => rw [hraw] at h; cases h
    | error misfit => exact .inl ⟨misfit, .inl ⟨hk, hraw⟩⟩
  | real =>
    simp only [hk] at h
    cases hraw : encodeReal s order.endian v with
    | ok raw => rw [hraw] at h; cases h
    | error misfit => exact .inl ⟨misfit, .inr ⟨hk, hraw⟩⟩

lemma detail?_of_encodeString {width : ℤ} (h : encodeString v width = .error fault) :
    fault.detail? = none := by
  obtain ⟨_, _, -, -, rfl⟩ | ⟨-, rfl⟩ := stringBytes_eq_error (stringBytes_of_encodeString h)
  · rfl
  · exact detail?_limited (notString v)

end Field

namespace Demand

variable {order : ByteOrder} {length : ℕ} {values : List Value} {e : FieldLayout} {v : Value}
  {misfit : Misfit}

/-- The field asks for a number, and the value that is there for it does not fit. -/
def Misfits (order : ByteOrder) (values : List Value) (d : Demand) (v : Value) (misfit : Misfit) :
    Prop :=
  ∃ e, d = .value e ∧ values[e.index]? = some v ∧ Field.Misfits e.specifier order v misfit

lemma meet_of_misfits {d : Demand} (h : d.Misfits order values v misfit) (length : ℕ) :
    ∃ s, d.meet order length values = .error (unpackable v s misfit).limited := by
  obtain ⟨e, rfl, hv, hmisfit⟩ := h
  refine ⟨e.specifier, ?_⟩
  rw [meet_value_of_some hv, FieldLayout.encode_of_ne_string hmisfit.ne_string,
    Field.encode_of_misfits hmisfit]
  rfl

/-- A demand that is not met has a detail behind it only if a number does not fit. -/
lemma misfits_or_detail?_eq_none {d : Demand} {fault : Fault}
    (h : d.meet order length values = .error fault) :
    (∃ v misfit, d.Misfits order values v misfit) ∨ fault.detail? = none := by
  cases d with
  | room p =>
    obtain _ | _ := meet_room_eq_error_iff.mp h <;> exact .inr rfl
  | value e =>
    cases hv : values[e.index]? with
    | none =>
      rw [meet_value_of_none hv] at h
      cases h
      exact .inr rfl
    | some v =>
      rw [meet_value_of_some hv] at h
      cases hencode : e.encode order v with
      | ok raw => rw [hencode] at h; cases h
      | error other =>
        rw [hencode] at h
        obtain rfl : other = fault := Except.error.inj h
        by_cases hs : e.specifier.kind = .string
        · simp only [FieldLayout.encode, hs] at hencode
          exact .inr (Field.detail?_of_encodeString hencode)
        · rw [FieldLayout.encode_of_ne_string hs] at hencode
          refine (Field.misfits_or_detail?_eq_none hencode).imp_left ?_
          rintro ⟨misfit, hmisfit⟩
          exact ⟨v, misfit, e, rfl, hv, hmisfit⟩

end Demand

/-! ## Refused records -/

namespace Format

variable {f : Format} {offset stop : ℤ} {ps : List Placement} {values : List Value}
  {misfit : Misfit} {utf8 : Utf8.DecodeFault} {fault : Fault}

/-- Packing comes as far as a number that does not fit its field: all that is asked for before it
is there. -/
def MeetsMisfit (f : Format) (b : Buffer) (offset : ℤ) (values : List Value) (misfit : Misfit) :
    Prop :=
  b.holding.readOnly = false ∧ ∃ ps before d after v, f.placements offset = .ok ps ∧
    demandsOf 0 ps = before ++ d :: after ∧ (∀ met ∈ before, met.Met b.data.length values) ∧
    d.Misfits f.order values v misfit

/-- Unpacking comes as far as a string that has no text: all that is before it is read. -/
def MeetsGarbled (f : Format) (data : Bytes) (offset : ℤ) (utf8 : Utf8.DecodeFault) : Prop :=
  ∃ before p after, f.placements offset = .ok (before ++ p :: after) ∧
    (∀ q ∈ before, q.Legible data) ∧ p.Inside data.length ∧ p.specifier = .string ∧
    Utf8.decode (p.bytes data) = .error utf8

/-- The text is the detail behind a refusal to pack into the value. -/
def PackDetail (f : Format) (target : Value) (offset : ℤ) (values : List Value) (text : Text) :
    Prop :=
  ∃ b misfit, target.buffer? = some b ∧ f.MeetsMisfit b offset values misfit ∧
    misfit.message = text

/-- The text is the detail behind a refusal to unpack the value. -/
def UnpackDetail (f : Format) (source : Value) (offset : ℤ) (text : Text) : Prop :=
  ∃ b utf8, source.buffer? = some b ∧ f.MeetsGarbled b.data offset utf8 ∧ utf8.message = text

lemma packInto_of_meetsMisfit (hw : f.walk offset = ps.map .ok) (hc : Chain offset ps stop)
    {b : Buffer} (h : f.MeetsMisfit b offset values misfit) :
    ∃ v s, (f.packInto b offset values).outcome = .error (unpackable v s misfit).limited := by
  obtain ⟨hb, ps', before, d, after, v, hps, hdemands, hbefore, hmisfit⟩ := h
  obtain rfl : ps = ps' := Except.ok.inj ((placements_of_walk hw).symm.trans hps)
  obtain ⟨s, hmeet⟩ := Demand.meet_of_misfits hmisfit b.data.length
  refine ⟨v, s, (packInto_eq_error_iff hw hc hb).mpr ?_⟩
  rw [plan_eq_mapM hw, hdemands, mapM_eq_error_of_first
    (fun met hmet => Demand.exists_meet_iff.mpr (hbefore met hmet)) hmeet]
  rfl

lemma meetsMisfit_or_detail?_eq_none (hw : f.walk offset = ps.map .ok) (hc : Chain offset ps stop)
    {b : Buffer} (h : (f.packInto b offset values).outcome = .error fault) :
    (∃ misfit, f.MeetsMisfit b offset values misfit) ∨ fault.detail? = none := by
  cases hb : b.holding.readOnly with
  | true =>
    simp only [packInto, hb, if_true] at h
    cases h
    exact .inr rfl
  | false =>
    have hplan := (packInto_eq_error_iff hw hc hb).mp h
    rw [plan_eq_mapM hw] at hplan
    cases hmeet : (demandsOf 0 ps).mapM (Demand.meet f.order b.data.length values) with
    | ok writes => rw [hmeet] at hplan; cases hplan
    | error other =>
      rw [hmeet] at hplan
      obtain rfl : other = fault := Except.error.inj hplan
      obtain ⟨before, d, after, hdemands, hbefore, hd⟩ := mapM_eq_error_iff.mp hmeet
      refine (Demand.misfits_or_detail?_eq_none hd).imp_left ?_
      rintro ⟨v, misfit, hmisfit⟩
      exact ⟨misfit, hb, ps, before, d, after, v, placements_of_walk hw, hdemands,
        fun met hmet => Demand.exists_meet_iff.mp (hbefore met hmet), hmisfit⟩

lemma unpackFrom_of_meetsGarbled (hw : f.walk offset = ps.map .ok) (hc : Chain offset ps stop)
    {data : Bytes} (h : f.MeetsGarbled data offset utf8) :
    ∃ raw, f.unpackFrom data offset = .error (.invalidUtf8 raw utf8) := by
  obtain ⟨before, p, after, hps, hbefore, hin, hs, hd⟩ := h
  obtain rfl := Except.ok.inj ((placements_of_walk hw).symm.trans hps)
  exact ⟨_, (unpackFrom_eq_error_iff hw hc).mpr (.garbled rfl hbefore hin hs hd)⟩

lemma meetsGarbled_or_detail?_eq_none (hw : f.walk offset = ps.map .ok) (hc : Chain offset ps stop)
    {data : Bytes} (h : f.unpackFrom data offset = .error fault) :
    (∃ utf8, f.MeetsGarbled data offset utf8) ∨ fault.detail? = none := by
  obtain ⟨-, -, -⟩ | ⟨rfl, hbefore, hin, hs, hd⟩ := (unpackFrom_eq_error_iff hw hc).mp h
  · exact .inr (detail?_limited (bufferTooSmall _ _ _))
  · exact .inl ⟨_, _, _, _, placements_of_walk hw, hbefore, hin, hs, hd⟩

/-- As many fields are written as there are, and the values beyond those are left over. -/
lemma packInto_counts (hw : f.walk offset = ps.map .ok) (hc : Chain offset ps stop) {b : Buffer}
    {count : ℕ} (h : (f.packInto b offset values).outcome = .ok count) :
    count = (fieldsOf 0 ps).length ∧
      (f.packInto b offset values).surplus = values.length - (fieldsOf 0 ps).length := by
  obtain ⟨hb, plan, hplan⟩ := plan_of_packInto h
  obtain ⟨hwrites, hrest⟩ := planFields_lengths ((plan_eq_ok_iff hw).mp hplan).2
  rw [packInto_of_plan hw hc hb hplan] at h ⊢
  exact ⟨(Except.ok.inj h).symm.trans hwrites, by rw [hrest, List.length_drop]⟩

lemma surplus_of_error (hw : f.walk offset = ps.map .ok) (hc : Chain offset ps stop) {b : Buffer}
    (h : (f.packInto b offset values).outcome = .error fault) :
    (f.packInto b offset values).surplus = 0 := by
  cases hb : b.holding.readOnly with
  | true => simp only [packInto, hb, if_true]
  | false =>
    have hplan := (packInto_eq_error_iff hw hc hb).mp h
    simp only [packInto, hb, hplan, Bool.false_eq_true, if_false]

lemma unpackFrom_counts (hw : f.walk offset = ps.map .ok) {data : Bytes}
    (h : f.unpackFrom data offset = .ok values) : values.length = (fieldsOf 0 ps).length :=
  ((unpackFrom_eq_ok_iff hw).mp h).2.length_eq.symm

end Format

/-! ## The records of an outcome -/

/-- The records of unpacking at an offset. -/
def Session.unpackRecords (f : Format) (offset : ℤ) : Except Fault (List Value) → List LogRecord
  | .ok values => [.unpacked values.length f offset]
  | .error fault => fault.records

namespace Format

variable {f : Format} {offset stop : ℤ} {ps : List Placement} {values : List Value}

/-- The records of packing tell how it ended. -/
lemma tell_packRecords (hw : f.walk offset = ps.map .ok) (hc : Chain offset ps stop) (b : Buffer)
    (values : List Value) :
    LogRecord.Tell
      (Session.packRecords f offset (f.packInto b offset values).surplus
        (f.packInto b offset values).outcome)
      (f.packInto b offset values).outcome
      ((if (fieldsOf 0 ps).length < values.length then
        [.ignored f (values.length - (fieldsOf 0 ps).length)] else []) ++
        [.packed (fieldsOf 0 ps).length f offset])
      (f.PackDetail (.buffer b) offset values) := by
  cases h : (f.packInto b offset values).outcome with
  | ok count =>
    obtain ⟨rfl, hsurplus⟩ := packInto_counts hw hc h
    refine .of_ok rfl ?_ ?_
    · simp only [Session.packRecords, Session.surplusRecords, hsurplus]
      congr 1
      split <;> split <;> first | rfl | omega
    · rintro text ⟨_, misfit, ⟨⟩, hmisfit, -⟩
      obtain ⟨_, _, hrefused⟩ := packInto_of_meetsMisfit hw hc hmisfit
      cases h.symm.trans hrefused
  | error fault =>
    rw [surplus_of_error hw hc h]
    refine tell_records rfl ?_ ((meetsMisfit_or_detail?_eq_none hw hc h).imp_left ?_)
    · rintro text ⟨_, misfit, ⟨⟩, hmisfit, rfl⟩
      obtain ⟨v, s, hrefused⟩ := packInto_of_meetsMisfit hw hc hmisfit
      rw [Except.error.inj (h.symm.trans hrefused), detail?_limited]
      rfl
    · rintro ⟨misfit, hmisfit⟩
      exact ⟨_, b, misfit, rfl, hmisfit, rfl⟩

/-- The records of unpacking tell how it ended. -/
lemma tell_unpackRecords (hw : f.walk offset = ps.map .ok) (hc : Chain offset ps stop)
    (b : Buffer) :
    LogRecord.Tell (Session.unpackRecords f offset (f.unpackFrom b.data offset))
      (f.unpackFrom b.data offset) [.unpacked (fieldsOf 0 ps).length f offset]
      (f.UnpackDetail (.buffer b) offset) := by
  cases h : f.unpackFrom b.data offset with
  | ok values =>
    refine .of_ok rfl ?_ ?_
    · rw [Session.unpackRecords, unpackFrom_counts hw h]
    · rintro text ⟨_, utf8, ⟨⟩, hgarbled, -⟩
      obtain ⟨_, hrefused⟩ := unpackFrom_of_meetsGarbled hw hc hgarbled
      cases h.symm.trans hrefused
  | error fault =>
    refine tell_records rfl ?_ ((meetsGarbled_or_detail?_eq_none hw hc h).imp_left ?_)
    · rintro text ⟨_, utf8, ⟨⟩, hgarbled, rfl⟩
      obtain ⟨raw, hrefused⟩ := unpackFrom_of_meetsGarbled hw hc hgarbled
      rw [Except.error.inj (h.symm.trans hrefused)]
      rfl
    · rintro ⟨utf8, hgarbled⟩
      exact ⟨_, b, utf8, rfl, hgarbled, rfl⟩

end Format

/-! ## Operations -/

namespace Session

/-- The value is a compiled format, or the text of one that is kept. -/
def HasCompiled (s : Session) (d : Text) (f : Format) (v : Value) : Prop :=
  v = .format f ∨ v = .text d ∧ (s.cache.find? d).isSome

variable {s : Session} {d : Text} {f : Format} {v : Value}

lemma hasCompiled_insert (c : Cache) (log : List LogRecord) (d : Text) (f : Format) :
    HasCompiled ⟨c.insert d f, log⟩ d f (.text d) :=
  .inr ⟨rfl, by simp [Cache.insert, Cache.find?, Cache.capacity]⟩

/-- Nothing is logged for a format that is there already. -/
lemma run_format_of_hasCompiled (hs : s.Sound) (hd : Descriptor.compile d = .ok f)
    (hv : s.HasCompiled d f v) :
    ∃ cache, (format v).run.run s = (.ok f, { s with cache := cache }) := by
  obtain rfl | ⟨rfl, hkept⟩ := hv
  · exact ⟨s.cache, rfl⟩
  obtain ⟨e, he⟩ := Option.isSome_iff_exists.mp hkept
  have hrun : (format (.text d)).run.run s =
      (.ok e.format, { s with cache := s.cache.touch e }) := by
    have hbind := run_bind (compile (.text d)) (fun e => pure e.format) s
    rwa [run_compile_text, Cache.lookUp, he] at hbind
  have hout := (run_format hs d).1
  rw [hrun, hd] at hout
  exact ⟨s.cache.touch e, by rw [hrun, Except.ok.inj hout]⟩

lemma buffer_eq_error {target : Value} (h : target.buffer? = none) :
    buffer target = .error (.notBuffer target.kindName) := by
  rw [buffer, h]

lemma run_packTarget_of_format {cache : Cache}
    (hf : (format v).run.run s = (.ok f, { s with cache := cache })) (target : Value) :
    (packTarget v target).run.run s =
      (report (buffer target) >>= fun b => pure (f, b) : Action (Format × Buffer)).run.run
        { s with cache := cache } := by
  rw [packTarget, run_bind, hf]

lemma run_packInto_of_format {cache : Cache}
    (hf : (format v).run.run s = (.ok f, { s with cache := cache })) (b : Buffer) (offset : ℤ)
    (values : List Value) :
    (packInto v (.buffer b) offset values).run s =
      (⟨.buffer (f.packInto b offset values).buffer,
          (f.packInto b offset values).outcome.map fun _ => ()⟩,
        ⟨cache, s.log ++ packRecords f offset (f.packInto b offset values).surplus
          (f.packInto b offset values).outcome⟩) := by
  simp only [packInto, StateT.run_bind, run_packTarget_of_format hf]
  rfl

lemma run_packInto_of_no_buffer {cache : Cache}
    (hf : (format v).run.run s = (.ok f, { s with cache := cache })) {target : Value}
    (ht : target.buffer? = none) (offset : ℤ) (values : List Value) :
    (packInto v target offset values).run s =
      (⟨target, .error (.notBuffer target.kindName)⟩,
        ⟨cache, s.log ++ (notBuffer target.kindName).records⟩) := by
  simp only [packInto, StateT.run_bind, run_packTarget_of_format hf, buffer_eq_error ht]
  rfl

lemma run_unpackFormat_eq (s : Session) (f : Format) (data : Bytes) (offset : ℤ) :
    (unpackFormat f data offset).run.run s =
      (f.unpackFrom data offset,
        { s with log := s.log ++ unpackRecords f offset (f.unpackFrom data offset) }) := by
  rw [unpackFormat, run_bind]
  cases f.unpackFrom data offset <;> rfl

lemma run_unpackFrom_of_format {cache : Cache}
    (hf : (format v).run.run s = (.ok f, { s with cache := cache })) (source : Value) (offset : ℤ) :
    (unpackFrom v source offset).run.run s =
      ((buffer source).bind fun b => f.unpackFrom b.data offset, ⟨cache, s.log ++
        unpackRecords f offset ((buffer source).bind fun b => f.unpackFrom b.data offset)⟩) := by
  rw [unpackFrom, run_bind, hf]
  dsimp only
  rw [run_bind]
  cases buffer source with
  | error fault => rfl
  | ok b => exact run_unpackFormat_eq _ f b.data offset

/-- With a format that is compiled already, what an operation logs tells how it ended, whatever
it is given. Packing logs the fields that it has written, which are as many as the record has, and
before that the values beyond them if there are any; unpacking logs the values that it has read,
again as many. When either is refused there is none of this. Where packing has come to a number
that does not fit, or unpacking to a string that has no text, there is one error with the detail
of that, and in all other cases there is nothing. -/
theorem records_tell_outcome {d : Text} {f : Format} (hd : Descriptor.compile d = .ok f)
    {s : Session} (hs : s.Sound) {v : Value} (hv : s.HasCompiled d f v) (target : Value)
    (offset : ℤ) :
    ∃ n, f.arity = .ok n ∧
      (∀ values, ∃ added,
        ((packInto v target offset values).run s).2.log = s.log ++ added ∧
        LogRecord.Tell added ((packInto v target offset values).run s).1.outcome
          ((if n < values.length then [.ignored f (values.length - n)] else []) ++
            [.packed n f offset])
          (f.PackDetail target offset values)) ∧
      ∃ added,
        ((unpackFrom v target offset).run.run s).2.log = s.log ++ added ∧
        (∀ values, ((unpackFrom v target offset).run.run s).1 = .ok values → values.length = n) ∧
        LogRecord.Tell added ((unpackFrom v target offset).run.run s).1 [.unpacked n f offset]
          (f.UnpackDetail target offset) := by
  have hwell := Descriptor.wellFormed_of_compile hd
  obtain ⟨ps, stop, hw, hc⟩ := hwell.exists_chain offset
  obtain ⟨cache, hf⟩ := run_format_of_hasCompiled hs hd hv
  refine ⟨_, Format.arity_of_walk hwell hw, fun values => ?_, ?_⟩
  · cases ht : target.buffer? with
    | none =>
      rw [run_packInto_of_no_buffer hf ht]
      refine ⟨_, rfl, tell_records rfl ?_ (.inr rfl)⟩
      rintro text ⟨b, misfit, hb, -⟩
      cases ht.symm.trans hb
    | some b =>
      obtain rfl : target = .buffer b := Value.eq_buffer ht
      rw [run_packInto_of_format hf]
      exact ⟨_, rfl, (Format.tell_packRecords hw hc b values).map _⟩
  · rw [run_unpackFrom_of_format hf]
    cases ht : target.buffer? with
    | none =>
      rw [buffer_eq_error ht]
      refine ⟨_, rfl, nofun, tell_records rfl ?_ (.inr rfl)⟩
      rintro text ⟨b, utf8, hb, -⟩
      cases ht.symm.trans hb
    | some b =>
      obtain rfl : target = .buffer b := Value.eq_buffer ht
      exact ⟨_, rfl, fun values h => Format.unpackFrom_counts hw h,
        Format.tell_unpackRecords hw hc b⟩

/-- A value too many is told of and does no harm. A number below zero is an error with its bounds,
a string that is none is refused without a record, and one without a text cannot be read. -/
theorem records_tell_outcome_surplus :
    ∃ (s : Session) (f : Format), s.HasCompiled "<H2s" f (.text "<H2s") ∧ s.log = [] ∧
      (∀ v, ((packInto (.text "<H2s") (.buffer (.whole .growable [0, 0, 0, 0])) 0
        [.int 1, .text [0x41], v]).run s).2.log = [.ignored f 1, .packed 2 f 0]) ∧
      LogRecord.OneError ((packInto (.text "<H2s") (.buffer (.whole .growable [0, 0, 0, 0])) 0
        [.int (-1), .absent]).run s).2.log "ushort format requires 0 <= number <= 65535" ∧
      ((packInto (.text "<H2s") (.buffer (.whole .growable [0, 0, 0, 0])) 0
        [.int 1, .absent]).run s).2.log = [] ∧
      LogRecord.OneError
        ((unpackFrom (.text "<H2s") (.ofBytes [1, 0, 0xFF, 0x41]) 0).run.run s).2.log
        "'utf-8' codec can't decode byte 0xff in position 0: invalid start byte" := by
  have hd : Descriptor.compile "<H2s" =
      .ok ⟨.littleEndian, [⟨1, .known .uint16⟩, ⟨2, .known .string⟩], "<H2s"⟩ := by cbv
  have hplaces : Format.placements ⟨.littleEndian, [⟨1, .known .uint16⟩, ⟨2, .known .string⟩],
    "<H2s"⟩ 0 = .ok [⟨0, 1, .uint16⟩, ⟨2, 2, .string⟩] := by rfl
  have hs : Sound ⟨.insert .empty "<H2s" _, []⟩ := sound_empty.insert hd
  have hkept := hasCompiled_insert .empty [] "<H2s"
  obtain ⟨n, hn, hpack, -⟩ :=
    records_tell_outcome hd hs (hkept _) (.buffer (.whole .growable [0, 0, 0, 0])) 0
  obtain rfl : n = 2 := Except.ok.inj (hn.symm.trans (by rfl))
  have hpacked := fun values => congrArg Target.outcome
    (run_packInto hs "<H2s" (.whole .growable [0, 0, 0, 0]) 0 values).1
  rw [hd] at hpacked
  obtain ⟨_, -, -, added, hread, -, hunpack⟩ :=
    records_tell_outcome hd hs (hkept _) (.ofBytes [1, 0, 0xFF, 0x41]) 0
  refine ⟨⟨.insert .empty "<H2s" ⟨.littleEndian, [⟨1, .known .uint16⟩, ⟨2, .known .string⟩],
    "<H2s"⟩, []⟩, _, hkept _, rfl, fun v => ?_, ?_, ?_, ?_⟩
  · obtain ⟨added, hadded, htell⟩ := hpack [.int 1, .text [0x41], v]
    have hdone := hpacked [.int 1, .text [0x41], v]
    rw [hadded, htell.done () (hdone.trans (by cbv))]
    rfl
  · obtain ⟨added, hadded, htell⟩ := hpack [.int (-1), .absent]
    have hmisfit : Field.Misfits .uint16 .littleEndian (.int (-1)) (.outside "ushort" 0 65535) :=
      .inl ⟨rfl, by rfl⟩
    rw [hadded]
    refine (htell.detailed _ ⟨_, .outside "ushort" 0 65535, rfl, ⟨rfl, _, [_], _, _, _, hplaces,
      rfl, ?_, _, rfl, rfl, hmisfit⟩, by cbv⟩).2
    exact List.forall_mem_singleton.mpr (by decide : Placement.Inside _ _)
  · obtain ⟨added, hadded, htell⟩ := hpack [.int 1, .absent]
    have hrefused := hpacked [.int 1, .absent]
    rw [hadded, htell.silent (.notString .absent) (hrefused.trans (by cbv))]
    · rfl
    rintro text ⟨b, misfit, -, ⟨-, ps, before, d, after, v, hps, hdemands, -, e, rfl, hv, hm⟩, -⟩
    obtain rfl := Except.ok.inj (hplaces.symm.trans hps)
    have he : e ∈ [⟨0, 2, .uint16, 0⟩, ⟨2, 2, .string, 1⟩] :=
      mem_fieldsOf_of_value (hdemands ▸ List.mem_append_right _ List.mem_cons_self)
    simp only [List.mem_cons, List.not_mem_nil, or_false] at he
    obtain rfl | rfl := he
    · obtain rfl := Option.some.inj hv
      obtain ⟨-, ⟨⟩⟩ | ⟨⟨⟩, -⟩ := hm
    · exact hm.ne_string rfl
  · have hgarbled : Utf8.decode [0xFF, 0x41] = .error ⟨0, 1, 0xFF, .invalidStart⟩ := by cbv
    rw [hread]
    refine (hunpack.detailed _ ⟨_, ⟨0, 1, 0xFF, .invalidStart⟩, rfl, ⟨[_], _, _, hplaces, ?_,
      by decide, rfl, hgarbled⟩, by cbv⟩).2
    exact List.forall_mem_singleton.mpr ⟨by decide, fun h => by cases h.1⟩

end Session

end BinaryLayout
