import BinaryLayout.Proofs.Concatenation
import BinaryLayout.Session

/-!
# Where a descriptor is refused

Reading a descriptor stops where no entry follows, or at an entry that writes zero. The text up to
there is a descriptor of its own, and no longer start of the text is one, blanks at its end apart:
entries that cover more of the text would be read as well, since a text has one reading. So the
place is the leftmost one where something is wrong with the text.
-/
namespace BinaryLayout.Descriptor

/-! ## Blanks at the ends -/

lemma isAsciiDigit_of_isBlank {c : CodePoint} (h : c.isBlank = true) : c.isAsciiDigit = false := by
  by_contra hdigit
  rw [isBlank_of_isAsciiDigit (Bool.eq_true_of_not_eq_false hdigit)] at h
  cases h

lemma isBlank_head?_trimStart (t : Text) : ∀ c ∈ t.trimStart.head?, c.isBlank = false := by
  intro c hc
  have hhead := List.head?_dropWhile_not CodePoint.isBlank t
  rw [Option.mem_def] at hc
  rw [show t.dropWhile CodePoint.isBlank = t.trimStart from rfl, hc] at hhead
  exact hhead

lemma isBlank_getLast?_trim (t : Text) : ∀ c ∈ t.trim.getLast?, c.isBlank = false := by
  intro c hc
  refine isBlank_head?_trimStart t.trimStart.reverse c ?_
  rwa [Text.trim, Text.trimEnd, List.getLast?_reverse] at hc

lemma isBlank_head?_trim (t : Text) : ∀ c ∈ t.trim.head?, c.isBlank = false := by
  intro c hc
  obtain ⟨after, -, hafter⟩ := exists_trimEnd_append t.trimStart
  change t.trim ++ after = t.trimStart at hafter
  refine isBlank_head?_trimStart t c ?_
  rw [← hafter, List.head?_append, Option.mem_def.mp hc]
  rfl

lemma exists_append_of_blanks {blanks t before rest : Text} {c : CodePoint} (hb : Blanks blanks)
    (hc : c.isBlank = false) (h : blanks ++ t = before ++ c :: rest) :
    ∃ between, before = blanks ++ between ∧ t = between ++ c :: rest := by
  obtain ⟨between, hbefore, ht⟩ | ⟨between, hblanks, hrest⟩ := List.append_eq_append_iff.mp h
  · exact ⟨between, hbefore, ht⟩
  · cases between with
    | nil => exact ⟨[], by simpa using hblanks.symm, by simpa using hrest.symm⟩
    | cons x between =>
      obtain ⟨rfl, -⟩ := List.cons.inj hrest
      have hx := hb c (by simp [hblanks])
      rw [hc] at hx
      cases hx

/-! ## Starts of a text that are accepted -/

lemma Opens.of_trimStart {e : Entry} {t u : Text} (h : Opens e t.trimStart u) : Opens e t u := by
  have ht := takeWhile_append_trimStart t
  generalize t.trimStart = v at h ht
  cases h with
  | intro s rest hbefore hdigits hafter =>
    rw [← ht, ← List.append_assoc]
    exact .intro s u (List.forall_mem_append.mpr ⟨blanks_takeWhile t, hbefore⟩) hdigits hafter

lemma Spells.exists_append {es : List Entry} {t u : Text} (h : Spells es t u) :
    ∃ read, t = read ++ u ∧ Spells es read [] := by
  induction h with
  | nil t => exact ⟨[], rfl, .nil []⟩
  | cons h _ ih =>
    obtain ⟨read, rfl, hread⟩ := ih
    cases h with
    | @intro before digits after s _ hbefore hdigits hafter =>
      refine ⟨before ++ (digits ++ CodePoint.ofChar s.letter :: (after ++ read)), ?_,
        .cons (.intro s read hbefore hdigits hafter) hread⟩
      simp only [List.append_assoc, List.cons_append]

/-- Entries end with a letter, which may have blanks behind it. -/
lemma Spells.exists_end {es : List Entry} {t : Text} (h : Spells es t []) :
    (es = [] ∧ t = []) ∨ ∃ (before : Text) (s : Specifier) (after : Text),
      t = before ++ CodePoint.ofChar s.letter :: after ∧ Blanks after ∧
        Spells es (before ++ [CodePoint.ofChar s.letter]) [] := by
  induction es generalizing t with
  | nil =>
    cases h
    exact .inl ⟨rfl, rfl⟩
  | cons e es ih =>
    right
    cases h with
    | cons h hs =>
      cases h with
      | @intro before digits after s u hbefore hdigits hafter =>
        obtain ⟨rfl, rfl⟩ | ⟨before', s', after', rfl, hafter', hs'⟩ := ih hs
        · refine ⟨before ++ digits, s, after, by simp, hafter, ?_⟩
          have hopens := Opens.intro s [] hbefore hdigits blanks_nil
          rw [List.append_nil, ← List.append_assoc] at hopens
          exact .cons hopens (.nil [])
        · refine ⟨before ++ digits ++ CodePoint.ofChar s.letter :: (after ++ before'), s', after',
            by simp, hafter', ?_⟩
          simpa using Spells.cons (.intro s _ hbefore hdigits hafter) hs'

lemma Spells.isAsciiDigit_getLast? {es : List Entry} {t : Text} (h : Spells es t []) :
    ∀ c ∈ t.getLast?, c.isAsciiDigit = false := by
  obtain ⟨-, rfl⟩ | ⟨before, s, after, rfl, hafter, -⟩ := h.exists_end
  · exact fun c hc => absurd hc (by simp)
  · intro c hc
    have hmem : c ∈ CodePoint.ofChar s.letter :: after := by
      rw [List.getLast?_append_of_ne_nil _ (List.cons_ne_nil _ _)] at hc
      exact List.mem_of_getLast? hc
    obtain rfl | hmem := List.mem_cons.mp hmem
    · exact isAsciiDigit_letter s
    · exact isAsciiDigit_of_isBlank (hafter c hmem)

/-- A mark and entries are a descriptor, whatever blanks follow them. -/
lemma exists_compile_of_spells {mark? : Option ByteOrder} {es : List Entry} {t after : Text}
    (hs : Spells es t []) (hes : ∀ e ∈ es, e.Countable) (hafter : Blanks after)
    (hhead : ∀ c ∈ (markText mark? ++ (t ++ after)).head?, c.isBlank = false) :
    ∃ f, compile (markText mark? ++ (t ++ after)) = .ok f := by
  have htrim : Text.trim (markText mark? ++ (t ++ after)) = Text.trimEnd (markText mark? ++ t) := by
    rw [Text.trim, trimStart_eq_self hhead, ← List.append_assoc, trimEnd_append _ hafter]
  suffices hg : ∃ fields, Text.trimEnd (markText mark? ++ t) = markText mark? ++ fields ∧
      Spells es fields [] by
    obtain ⟨fields, hfields, hspells⟩ := hg
    exact ⟨_, compile_eq_ok_iff.mpr ⟨mark?, es, ⟨fields, htrim.trans hfields, hspells⟩, hes, rfl⟩⟩
  obtain ⟨rfl, rfl⟩ | ⟨before, s, behind, rfl, hbehind, hspells⟩ := hs.exists_end
  · refine ⟨[], trimEnd_eq_self fun c hc => ?_, .nil []⟩
    rw [List.append_nil] at hc
    cases mark? with
    | none => cases hc
    | some order =>
      obtain rfl := Option.mem_some_iff.mp hc
      cases order <;> decide
  · refine ⟨before ++ [CodePoint.ofChar s.letter], ?_, hspells⟩
    have hsplit : markText mark? ++ (before ++ CodePoint.ofChar s.letter :: behind) =
        markText mark? ++ (before ++ [CodePoint.ofChar s.letter]) ++ behind := by simp
    rw [hsplit, trimEnd_append _ hbehind]
    refine trimEnd_eq_self fun c hc => ?_
    rw [← List.append_assoc, List.getLast?_concat] at hc
    exact Option.mem_some_iff.mp hc ▸ isBlank_letter s

/-! ## No longer start is accepted -/

def Stuck (t : Text) : Prop := ∀ e rest, Opens e t rest → ¬e.Countable

lemma Opens.length_lt {e : Entry} {t u : Text} (h : Opens e t u) :
    u.length < t.trimStart.length := by
  cases h with
  | intro s rest hbefore hdigits hafter =>
    rw [trimStart_append hbefore, trimStart_entry hdigits]
    simp only [List.length_append, List.length_cons]
    omega

lemma Spells.length_le {es : List Entry} {t u : Text} (h : Spells es t u) :
    u.trimStart.length ≤ t.trimStart.length := by
  induction h with
  | nil => exact le_refl _
  | @cons _ _ t u rest h _ ih =>
    have hlt := h.length_lt
    have hle := u.length_trimStart_le
    omega

/-- Reading that is stuck has taken all the entries that any reading takes. -/
lemma Spells.length_le_of_stuck {es es' : List Entry} {t t' u v : Text} (h : Spells es t u)
    (hu : Stuck u) (h' : Spells es' t' v) (hes' : ∀ e ∈ es', e.Countable)
    (ht : t.trimStart = t'.trimStart) : u.trimStart.length ≤ v.trimStart.length := by
  induction h generalizing es' t' with
  | nil t =>
    cases h' with
    | nil => rw [ht]
    | cons h' _ =>
      have hopens := h'.trimStart
      rw [← ht] at hopens
      exact absurd (hes' _ List.mem_cons_self) (hu _ _ hopens.of_trimStart)
  | cons h hs ih =>
    cases h' with
    | nil => exact ht ▸ (Spells.cons h hs).length_le
    | cons h' hs' =>
      obtain ⟨-, hrest⟩ := h.unique h' ht
      exact ih hu hs' (fun e he => hes' e (List.mem_cons_of_mem _ he)) hrest

lemma splitOrder_append {t : Text} (h : t ≠ []) (more : Text) :
    (splitOrder (t ++ more)).2 = (splitOrder t).2 ++ more := by
  cases t with
  | nil => exact absurd rfl h
  | cons c t =>
    simp only [List.cons_append, splitOrder]
    cases ByteOrder.ofMark? c <;> rfl

/-- No descriptor that a text starts with reaches farther than reading does, blanks apart. -/
lemma length_le_of_compile {es : List Entry} {t u v : Text} {f : Format}
    (hs : Spells es (splitOrder (t ++ v)).2 u) (hu : Stuck u) (hne : t ≠ []) (ht : t.trim = t)
    (hf : compile t = .ok f) : u.trimStart.length ≤ v.length := by
  obtain ⟨mark?, es', ⟨fields, hm, hs'⟩, hes', -⟩ := compile_eq_ok_iff.mp hf
  have hsplit := splitOrder_markText mark? (hs'.continues (.inl rfl))
  rw [← hm, ht] at hsplit
  rw [splitOrder_append hne, hsplit] at hs
  exact (hs.length_le_of_stuck hu (hs'.append v) hes' rfl).trans v.length_trimStart_le

/-! ## Counts that are zero -/

def Zeros (t : Text) : Prop := t ≠ [] ∧ ∀ c ∈ t, c = CodePoint.ofChar '0'

/-- The text starts with zeros and the letter of a type. -/
def ZeroCount (t : Text) : Prop :=
  ∃ (zeros : Text) (s : Specifier) (rest : Text), Zeros zeros ∧
    t = zeros ++ CodePoint.ofChar s.letter :: rest

lemma Zeros.digits {t : Text} (h : Zeros t) : Digits t := fun c hc => by
  rw [h.2 c hc]
  decide

lemma ofAsciiDigits_concat (t : Text) (c : CodePoint) :
    Numeral.ofAsciiDigits (t ++ [c]) =
      10 * Numeral.ofAsciiDigits t + Numeral.asciiDigitValue c := by
  simp [Numeral.ofAsciiDigits, Numeral.ofDigits]

lemma ofAsciiDigits_eq_zero_iff {digits : Text} (h : Digits digits) :
    Numeral.ofAsciiDigits digits = 0 ↔ ∀ c ∈ digits, c = CodePoint.ofChar '0' := by
  induction digits using List.reverseRecOn with
  | nil => exact iff_of_true rfl fun c hc => absurd hc List.not_mem_nil
  | append_singleton digits c ih =>
    obtain ⟨hdigits, hc⟩ := List.forall_mem_append.mp h
    have hvalue : Numeral.asciiDigitValue c = 0 ↔ c = CodePoint.ofChar '0' := by
      have hdigit := hc c (List.mem_singleton_self c)
      simp only [CodePoint.isAsciiDigit, Bool.and_eq_true, decide_eq_true_eq] at hdigit
      rw [Numeral.asciiDigitValue, Fin.ext_iff, CodePoint.val_ofChar]
      have hzero : '0'.toNat = 0x30 := rfl
      omega
    rw [ofAsciiDigits_concat, List.forall_mem_append, List.forall_mem_singleton, ← ih hdigits,
      ← hvalue]
    omega

lemma Entry.count_eq_zero_iff {digits : Text} {s : Specifier} (h : Digits digits) :
    Entry.count ⟨digits, s⟩ = 0 ↔ Zeros digits := by
  unfold count Zeros
  by_cases hnone : digits = []
  · simp [hnone]
  · rw [if_neg hnone, ofAsciiDigits_eq_zero_iff h]
    simp [hnone]

lemma opens_of_digits {digits : Text} (h : Digits digits) (s : Specifier) (rest : Text) :
    Opens ⟨digits, s⟩ (digits ++ CodePoint.ofChar s.letter :: rest) rest := by
  exact .intro s rest blanks_nil h blanks_nil

lemma ZeroCount.exists_opens {t : Text} (h : ZeroCount t) : ∃ e rest, Opens e t rest := by
  obtain ⟨zeros, s, rest, hzeros, rfl⟩ := h
  exact ⟨_, rest, opens_of_digits hzeros.digits s rest⟩

lemma ZeroCount.exists_cons {t : Text} (h : ZeroCount t) :
    ∃ c rest, t = c :: rest ∧ c.isBlank = false := by
  obtain ⟨zeros, s, rest, hzeros, rfl⟩ := h
  cases zeros with
  | nil => exact absurd rfl hzeros.1
  | cons c zeros =>
    exact ⟨c, _, rfl, isBlank_of_isAsciiDigit (hzeros.digits c List.mem_cons_self)⟩

lemma ZeroCount.zeros {digits : Text} {s : Specifier} {rest : Text} (hd : Digits digits)
    (h : ZeroCount (digits ++ CodePoint.ofChar s.letter :: rest)) : Zeros digits := by
  obtain ⟨zeros, s', rest', hzeros, ht⟩ := h
  have hopens := opens_of_digits hzeros.digits s' rest'
  rw [← ht] at hopens
  obtain ⟨heq, -⟩ := hopens.unique (opens_of_digits hd s rest) rfl
  obtain rfl : zeros = digits := congrArg Entry.digits heq
  exact hzeros

/-! ## Errors of a text -/

/-- The places behind the mark of a text where something is wrong: a character from which on no
entry can be read, or a count that is zero. -/
inductive Flaw (t : Text) : ℕ → Prop where
  | stray {before rest : Text} {c : CodePoint} : (splitOrder t).2 = before ++ c :: rest →
      c.isBlank = false → (∀ e u, ¬Opens e (c :: rest) u) → Flaw t (t.length - (c :: rest).length)
  | zero {before rest : Text} : (splitOrder t).2 = before ++ rest →
      (∀ c ∈ before.getLast?, c.isAsciiDigit = false) → ZeroCount rest →
      Flaw t (t.length - rest.length)

/-- Nothing is wrong inside an entry: another one can be read from each of its digits on, and from
its letter, and where that one counts zero a digit stands before it. -/
lemma Opens.opens_inside {e : Entry} {t u before rest : Text} {c : CodePoint} (h : Opens e t u)
    (he : e.Countable) (ht : t = before ++ c :: rest) (hc : c.isBlank = false)
    (hlong : u.length < (c :: rest).length) :
    (∃ e', Opens e' (c :: rest) u) ∧
      (ZeroCount (c :: rest) → ∃ b ∈ before.getLast?, b.isAsciiDigit = true) := by
  cases h with
  | @intro blanks digits after s _ hblanks hdigits hafter =>
    obtain ⟨between, rfl, hentry⟩ := exists_append_of_blanks hblanks hc ht
    have hsplit : ∃ others, digits = between ++ others ∧
        c :: rest = others ++ CodePoint.ofChar s.letter :: (after ++ u) := by
      obtain ⟨behind, hbetween, hrest⟩ | ⟨others, hdigits, hrest⟩ :=
        List.append_eq_append_iff.mp hentry
      · cases behind with
        | nil => exact ⟨[], by simpa using hbetween.symm, by simpa using hrest.symm⟩
        | cons x behind =>
          -- What is behind the letter are blanks, or belongs to the rest.
          obtain ⟨-, hrest⟩ := List.cons.inj hrest
          obtain ⟨more, -, rfl⟩ := exists_append_of_blanks hafter hc hrest
          simp only [List.length_append, List.length_cons] at hlong
          omega
      · exact ⟨others, hdigits, hrest⟩
    obtain ⟨others, rfl, hothers⟩ := hsplit
    have hdigits' : Digits others := fun d hd => hdigits d (List.mem_append_right _ hd)
    rw [hothers]
    refine ⟨⟨⟨others, s⟩, .intro s u blanks_nil hdigits' hafter⟩, fun hzero => ?_⟩
    have hzeros := ZeroCount.zeros hdigits' hzero
    have hne : between ≠ [] := by
      rintro rfl
      exact he.2 ((Entry.count_eq_zero_iff hdigits).mpr hzeros)
    refine ⟨between.getLast hne, ?_, hdigits _ (List.mem_append_left _ (List.getLast_mem hne))⟩
    rw [List.getLast?_append_of_ne_nil _ hne]
    exact List.getLast?_eq_getLast_of_ne_nil hne

/-- Nothing is wrong inside entries that can be counted. -/
lemma Spells.opens_inside {es : List Entry} {t u before rest : Text} {c : CodePoint}
    (h : Spells es t u) (hes : ∀ e ∈ es, e.Countable) (ht : t = before ++ c :: rest)
    (hc : c.isBlank = false) (hlong : u.trimStart.length < (c :: rest).length) :
    (∃ e w, Opens e (c :: rest) w) ∧
      (ZeroCount (c :: rest) → ∃ b ∈ before.getLast?, b.isAsciiDigit = true) := by
  induction h generalizing before with
  | nil t =>
    rw [← takeWhile_append_trimStart t] at ht
    obtain ⟨between, -, hrest⟩ := exists_append_of_blanks (blanks_takeWhile t) hc ht
    rw [hrest, List.length_append] at hlong
    omega
  | @cons e es t w u h hs ih =>
    by_cases hle : (c :: rest).length ≤ w.length
    · obtain ⟨read, rfl, -⟩ := (Spells.cons h (.nil w)).exists_append
      obtain ⟨before', rfl⟩ : ∃ before', w = before' ++ c :: rest := by
        have hsuffix : c :: rest <:+ w :=
          List.suffix_of_suffix_length_le ⟨before, ht.symm⟩ (List.suffix_append read w) hle
        exact ⟨_, hsuffix.choose_spec.symm⟩
      obtain ⟨hopens, hzero⟩ :=
        ih (fun e' he' => hes e' (List.mem_cons_of_mem _ he')) rfl hlong
      refine ⟨hopens, fun hcount => ?_⟩
      obtain ⟨b, hb, hdigit⟩ := hzero hcount
      rw [← List.append_assoc] at ht
      obtain rfl := List.append_cancel_right ht
      exact ⟨b, by rw [List.getLast?_append, Option.mem_def.mp hb]; rfl, hdigit⟩
    · obtain ⟨⟨e', hopens⟩, hzero⟩ :=
        h.opens_inside (hes e List.mem_cons_self) ht hc (Nat.lt_of_not_le hle)
      exact ⟨⟨e', w, hopens⟩, hzero⟩

/-! ## Where reading stops -/

/-- Reading stops at a character: behind the mark and the entries that can be counted there are only
blanks in front of it, and from it on no such entry can be read. -/
structure StopsAt (t : Text) (mark? : Option ByteOrder) (es : List Entry) (read gap : Text)
    (c : CodePoint) (rest : Text) : Prop where
  whole : t = markText mark? ++ read ++ (gap ++ c :: rest)
  fields : (splitOrder t).2 = read ++ (gap ++ c :: rest)
  entries : Spells es read []
  countable : ∀ e ∈ es, e.Countable
  blanks : Blanks gap
  nonblank : c.isBlank = false
  stuck : Stuck (c :: rest)

/-- A descriptor that is refused is refused where reading stops: for what stands there, in front of
the blanks, or for a count that is zero. -/
theorem exists_stopsAt {d : Text} {fault : Fault} (hd : compile d = .error fault)
    (hf : Session.refusesDescriptor fault = true) :
    ∃ mark? es read gap c rest, StopsAt d.trim mark? es read gap c rest ∧
      (((∀ e u, ¬Opens e (c :: rest) u) ∧ fault =
          .unexpectedCharacter d.trim (d.trim.length - (gap ++ c :: rest).length)) ∨
        (ZeroCount (c :: rest) ∧
          fault = .zeroCount d.trim (d.trim.length - (c :: rest).length))) := by
  rw [compile_eq] at hd
  obtain ⟨mark?, hm, -⟩ := exists_markText d.trim
  obtain ⟨es, u, r, hs, hes, hr, htokens⟩ := exists_halt d.trim (splitOrder d.trim).2
  obtain ⟨read, hfields, hread⟩ := hs.exists_append
  rw [htokens] at hd
  have hu := takeWhile_append_trimStart u
  have hstop : ∀ {c rest}, u.trimStart = c :: rest → Stuck (c :: rest) →
      StopsAt d.trim mark? es read (u.takeWhile CodePoint.isBlank) c rest := by
    intro c rest hrest hstuck
    have hnonblank := isBlank_head?_trimStart u c (by rw [hrest]; rfl)
    rw [hrest] at hu
    refine ⟨?_, ?_, hread, hes, blanks_takeWhile u, hnonblank, hstuck⟩
    · rw [hu, List.append_assoc, ← hfields, ← hm]
    · rw [hu, hfields]
  cases hr with
  | finished => cases hd
  | overlong => cases hd; cases hf
  | unexpected hne hnone =>
    cases hd
    cases hrest : u.trimStart with
    | nil =>
      -- The text does not end with blanks.
      have hlast := isBlank_getLast?_trim d (u.getLast hne) (by
        rw [hm, hfields, ← List.append_assoc, List.getLast?_append_of_ne_nil _ hne]
        exact List.getLast?_eq_getLast_of_ne_nil hne)
      rw [blanks_of_trimStart hrest _ (List.getLast_mem hne)] at hlast
      cases hlast
    | cons c rest =>
      have hopens : ∀ e w, ¬Opens e (c :: rest) w := fun e w h =>
        hnone e w (Opens.of_trimStart (hrest ▸ h))
      refine ⟨mark?, es, read, _, c, rest, hstop hrest fun e w h => absurd h (hopens e w),
        .inl ⟨hopens, ?_⟩⟩
      rw [← hrest, hu]
  | @zero e w hopens hlimit hcount =>
    cases hd
    have hopens := hopens.trimStart
    cases hrest : u.trimStart with
    | nil =>
      rw [hrest] at hopens
      exact absurd hopens (not_opens_nil _ _)
    | cons c rest =>
      have hstuck : Stuck (c :: rest) := fun e' w' h' he' => by
        obtain ⟨rfl, -⟩ := h'.unique (hrest ▸ hopens) rfl
        exact he'.2 hcount
      refine ⟨mark?, es, read, _, c, rest, hstop hrest hstuck, .inr ⟨?_, ?_⟩⟩
      · rw [← hrest]
        have hnonblank := isBlank_head?_trimStart u
        generalize u.trimStart = v at hopens hnonblank
        cases hopens with
        | @intro before digits after s _ hbefore hdigits _ =>
          cases before with
          | nil => exact ⟨digits, s, _, (Entry.count_eq_zero_iff hdigits).mp hcount, rfl⟩
          | cons b before =>
            have hb := hnonblank b rfl
            rw [hbefore b List.mem_cons_self] at hb
            cases hb
      · rfl

namespace StopsAt

variable {t read gap rest : Text} {mark? : Option ByteOrder} {es : List Entry} {c : CodePoint}
variable (h : StopsAt t mark? es read gap c rest)

include h

lemma length_eq : t.length = (markText mark? ++ read).length + gap.length + (c :: rest).length := by
  have hlength := congrArg List.length h.whole
  simp only [List.length_append] at hlength ⊢
  omega

lemma take_add {k : ℕ} (hk : k ≤ gap.length) :
    t.take ((markText mark? ++ read).length + k) = markText mark? ++ read ++ gap.take k := by
  rw [h.whole, List.take_length_add_append, List.take_append_of_le_length hk]

lemma trimStart_left : Text.trimStart (gap ++ c :: rest) = c :: rest := by
  rw [trimStart_append h.blanks, trimStart_cons h.nonblank]

/-- What is read is a descriptor, with some of the blanks behind it. -/
lemma exists_compile_take (hhead : ∀ b ∈ t.head?, b.isBlank = false) {k : ℕ}
    (hk : k ≤ gap.length) :
    ∃ f, compile (t.take ((markText mark? ++ read).length + k)) = .ok f := by
  have hstart : ∀ b ∈ (t.take ((markText mark? ++ read).length + k)).head?,
      b.isBlank = false := by
    intro b hb
    rw [List.head?_take] at hb
    split at hb
    · cases hb
    · exact hhead b hb
  rw [h.take_add hk, List.append_assoc] at hstart ⊢
  exact exists_compile_of_spells h.entries h.countable
    (fun b hb => h.blanks b (List.mem_of_mem_take hb)) hstart

/-- A longer start of the text that does not end with a blank is no descriptor. -/
lemma not_compile_take (hhead : ∀ b ∈ t.head?, b.isBlank = false) {q : ℕ}
    (hq : (markText mark? ++ read).length < q)
    (hlast : ∀ b ∈ (t.take q).getLast?, b.isBlank = false) (f : Format) :
    compile (t.take q) ≠ .ok f := by
  intro hf
  have hsplit := List.take_append_drop q t
  have hlength := h.length_eq
  have hne : t.take q ≠ [] := by
    rw [Ne, List.take_eq_nil_iff]
    rintro (rfl | rfl)
    · exact absurd hq (Nat.not_lt_zero _)
    · cases hlength
  have htrim : Text.trim (t.take q) = t.take q := by
    have hstart : Text.trimStart (t.take q) = t.take q := trimStart_eq_self fun b hb => by
      rw [List.head?_take, if_neg (by omega)] at hb
      exact hhead b hb
    rw [Text.trim, hstart, trimEnd_eq_self hlast]
  have hspells : Spells es (splitOrder (t.take q ++ t.drop q)).2 (gap ++ c :: rest) := by
    rw [hsplit, h.fields]
    exact h.entries.append _
  have hstuck : Stuck (gap ++ c :: rest) := fun e w hopens => by
    have hopens := hopens.trimStart
    rw [h.trimStart_left] at hopens
    exact h.stuck e w hopens
  have hle := length_le_of_compile hspells hstuck hne htrim hf
  rw [h.trimStart_left, List.length_drop] at hle
  -- So it ends among the blanks.
  obtain ⟨k, rfl⟩ := Nat.exists_eq_add_of_lt hq
  have hk : k + 1 ≤ gap.length := by
    rw [List.length_cons] at hlength hle
    omega
  have hgap : gap.take (k + 1) ≠ [] := by
    rw [Ne, List.take_eq_nil_iff]
    rintro (hzero | rfl)
    · cases hzero
    · cases hk
  rw [Nat.add_assoc, h.take_add hk, List.getLast?_append_of_ne_nil _ hgap] at hlast
  have hblank := hlast _ (List.getLast?_eq_getLast_of_ne_nil hgap)
  rw [h.blanks _ (List.mem_of_mem_take (List.getLast_mem hgap))] at hblank
  cases hblank

/-- Nothing is wrong with the text in front of where reading stops. -/
lemma le_of_flaw {q : ℕ} (hq : Flaw t q) : (markText mark? ++ read).length + gap.length ≤ q := by
  have hspells : Spells es (splitOrder t).2 (gap ++ c :: rest) := by
    rw [h.fields]
    exact h.entries.append _
  have hlength := h.length_eq
  -- Otherwise there is more text from the flaw on than is left by reading.
  by_contra hlt
  cases hq with
  | @stray before others b hfields hb hnone =>
    have hlong : (Text.trimStart (gap ++ c :: rest)).length < (b :: others).length := by
      rw [h.trimStart_left]
      omega
    obtain ⟨⟨e, w, hopens⟩, -⟩ := hspells.opens_inside h.countable hfields hb hlong
    exact hnone e w hopens
  | @zero before others hfields hbefore hcount =>
    have hlong : (Text.trimStart (gap ++ c :: rest)).length < others.length := by
      rw [h.trimStart_left]
      omega
    obtain ⟨b, others, rfl, hb⟩ := hcount.exists_cons
    obtain ⟨-, hzero⟩ := hspells.opens_inside h.countable hfields hb hlong
    obtain ⟨x, hx, hdigit⟩ := hzero hcount
    rw [hbefore x hx] at hdigit
    cases hdigit

/-- What is wrong where reading stops. -/
lemma flaw (hkind : (∀ e u, ¬Opens e (c :: rest) u) ∨ ZeroCount (c :: rest)) :
    Flaw t ((markText mark? ++ read).length + gap.length) := by
  have hplace : (markText mark? ++ read).length + gap.length =
      t.length - (c :: rest).length := by
    rw [h.length_eq, Nat.add_sub_cancel]
  have hfields := h.fields
  rw [← List.append_assoc] at hfields
  rw [hplace]
  obtain hnone | hzero := hkind
  · exact .stray hfields h.nonblank hnone
  · refine .zero hfields (fun b hb => ?_) hzero
    rw [List.getLast?_append, Option.mem_def, Option.or_eq_some_iff] at hb
    obtain hgap | ⟨-, hread⟩ := hb
    · exact isAsciiDigit_of_isBlank (h.blanks b (List.mem_of_getLast? hgap))
    · exact h.entries.isAsciiDigit_getLast? b hread

/-- What any place has in common with where reading stops that has only blanks between them. -/
lemma bounds (hhead : ∀ b ∈ t.head?, b.isBlank = false)
    (hkind : (∀ e u, ¬Opens e (c :: rest) u) ∨ ZeroCount (c :: rest)) {k p : ℕ}
    (hk : k ≤ gap.length) (hp : p = (markText mark? ++ read).length + k) :
    p < t.length ∧ (∃ f, compile (t.take p) = .ok f) ∧
      (∀ q, p < q → (∀ b ∈ (t.take q).getLast?, b.isBlank = false) →
        ∀ f, compile (t.take q) ≠ .ok f) ∧
      (∀ q, Flaw t q → p ≤ q) ∧ ∃ q, p ≤ q ∧ Flaw t q ∧ Blanks ((t.take q).drop p) := by
  have hlength := h.length_eq
  rw [List.length_cons] at hlength
  subst hp
  refine ⟨by omega, h.exists_compile_take hhead hk,
    fun q hq hlast f => h.not_compile_take hhead (by omega) hlast f, fun q hq => ?_,
    (markText mark? ++ read).length + gap.length, by omega, h.flaw hkind, ?_⟩
  · have hle := h.le_of_flaw hq
    omega
  · rw [h.take_add (le_refl _), List.drop_length_add_append, List.take_length]
    exact fun b hb => h.blanks b (List.mem_of_mem_drop hb)

end StopsAt

/-- Where a descriptor is refused, as a descriptor. The text up to there is one, and no longer start
of the text is, unless it ends with a blank. It is refused for a zero when the text goes on there
with zeros and a letter, and for an unexpected character otherwise. Nothing is wrong in front of the
place, and blanks apart something is wrong there. -/
theorem compile_refused {d : Text} {fault : Fault} (hd : compile d = .error fault)
    (hf : Session.refusesDescriptor fault = true) :
    ∃ p, ((fault = .zeroCount d.trim p ∧ ZeroCount (d.trim.drop p) ∧
          fault.message = some (Fault.pointAt "the count must be positive" d.trim p)) ∨
        (fault = .unexpectedCharacter d.trim p ∧ ¬ZeroCount (d.trim.drop p) ∧
          fault.message = some (Fault.pointAt "unexpected character" d.trim p))) ∧
      p < d.trim.length ∧ (∃ f, compile (d.trim.take p) = .ok f) ∧
      (∀ q, p < q → (∀ c ∈ (d.trim.take q).getLast?, c.isBlank = false) →
        ∀ f, compile (d.trim.take q) ≠ .ok f) ∧
      (∀ q, Flaw d.trim q → p ≤ q) ∧
      ∃ q, p ≤ q ∧ Flaw d.trim q ∧ Blanks ((d.trim.take q).drop p) := by
  obtain ⟨mark?, es, read, gap, c, rest, h, hkind⟩ := exists_stopsAt hd hf
  have hhead := isBlank_head?_trim d
  have hlength := h.length_eq
  obtain ⟨hnone, rfl⟩ | ⟨hzero, rfl⟩ := hkind
  · have hp : d.trim.length - (gap ++ c :: rest).length = (markText mark? ++ read).length + 0 := by
      rw [List.length_append]
      omega
    refine ⟨_, .inr ⟨rfl, fun hcount => ?_, rfl⟩,
      h.bounds hhead (.inl hnone) (Nat.zero_le _) hp⟩
    rw [hp, h.whole, List.drop_length_add_append, List.drop_zero] at hcount
    obtain ⟨e, w, hopens⟩ := hcount.exists_opens
    have hopens := hopens.trimStart
    rw [h.trimStart_left] at hopens
    exact hnone e w hopens
  · have hp : d.trim.length - (c :: rest).length =
        (markText mark? ++ read).length + gap.length := by omega
    refine ⟨_, .inl ⟨rfl, ?_, rfl⟩, h.bounds hhead (.inr hzero) (le_refl _) hp⟩
    rwa [hp, h.whole, List.drop_length_add_append, List.drop_left]

/-- Of a zero and a character that is no letter the zero comes first. -/
theorem compile_refused_zero :
    ∃ fault, compile " 2H 0b ?" = .error fault ∧ Session.refusesDescriptor fault = true ∧
      fault = .zeroCount "2H 0b ?" 3 ∧ (∃ f, compile "2H " = .ok f) ∧
      (∀ f, compile "2H 0b" ≠ .ok f) ∧ ∀ q, Flaw "2H 0b ?" q → 3 ≤ q := by
  have hd : compile " 2H 0b ?" = .error (.zeroCount "2H 0b ?" 3) := by cbv
  have htrim : Text.trim " 2H 0b ?" = ("2H 0b ?" : Text) := by cbv
  obtain ⟨p, hkind, -, hok, hlong, hfirst, -⟩ := compile_refused hd rfl
  rw [htrim] at hok hlong hfirst hkind
  obtain ⟨hfault, -⟩ | ⟨hfault, -⟩ := hkind
  swap
  · cases hfault
  obtain rfl : p = 3 := (Fault.zeroCount.inj hfault).2.symm
  refine ⟨_, hd, rfl, rfl, hok, hlong 5 (by decide) fun c hc => ?_, hfirst⟩
  obtain rfl := Option.mem_some_iff.mp hc
  decide

end BinaryLayout.Descriptor
