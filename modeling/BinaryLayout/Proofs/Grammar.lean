import BinaryLayout.Descriptor
import Mathlib.Data.List.DropRight
import Mathlib.Data.List.Infix
import Mathlib.Data.List.TakeWhile
import Mathlib.Tactic.Common

/-!
# The grammar of descriptors

A descriptor is a mark, if any, and then entries, each of which may have blanks before its count
and behind its letter. Blanks between two entries belong to either, yet reading takes all of them
with the first, so whatever reading finds does not depend on blanks at its start. Blanks, digits,
letters and marks are four classes of characters without a common member, and therefore a text
has at most one reading.
-/
namespace BinaryLayout.Descriptor

/-! ## The grammar -/

/-- A field as it is written: the digits of its count, if any, and its type. -/
structure Entry where
  digits : Text
  specifier : Specifier
  deriving DecidableEq, Repr

namespace Entry

def count (e : Entry) : ℕ := if e.digits = [] then 1 else Numeral.ofAsciiDigits e.digits

def token (e : Entry) : Token := ⟨e.count, .known e.specifier⟩

/-- The count is within the digit limit, and is not zero. -/
def Countable (e : Entry) : Prop := e.digits.length ≤ Numeral.digitLimit ∧ e.count ≠ 0

end Entry

def Blanks (t : Text) : Prop := ∀ c ∈ t, c.isBlank = true

def Digits (t : Text) : Prop := ∀ c ∈ t, c.isAsciiDigit = true

/-- The text starts with the entry and blanks around it, and goes on with the rest. -/
inductive Opens : Entry → Text → Text → Prop where
  | intro {before digits after : Text} (s : Specifier) (rest : Text) :
      Blanks before → Digits digits → Blanks after →
      Opens ⟨digits, s⟩ (before ++ (digits ++ CodePoint.ofChar s.letter :: (after ++ rest))) rest

/-- The text starts with the entries in order, and goes on with the rest. -/
inductive Spells : List Entry → Text → Text → Prop where
  | nil (t : Text) : Spells [] t t
  | cons {e : Entry} {es : List Entry} {t u rest : Text} :
      Opens e t u → Spells es u rest → Spells (e :: es) t rest

/-- How a descriptor starts that has the given mark, or none. -/
def markText : Option ByteOrder → Text
  | none => []
  | some order => [CodePoint.ofChar order.mark]

/-- The text is a mark, if any, and the entries in order. -/
def Grammatical (mark? : Option ByteOrder) (es : List Entry) (t : Text) : Prop :=
  ∃ fields, t = markText mark? ++ fields ∧ Spells es fields []

/-! ## Classes of characters -/

lemma isBlank_of_isAsciiDigit {c : CodePoint} (h : c.isAsciiDigit = true) : c.isBlank = false := by
  simp only [CodePoint.isAsciiDigit, Bool.and_eq_true, decide_eq_true_eq] at h
  simp only [CodePoint.isBlank, CodePoint.blankRanges, List.any_cons, List.any_nil]
  simp only [Bool.or_false, Bool.or_eq_false_iff, Bool.and_eq_false_iff, decide_eq_false_iff_not]
  omega

lemma isBlank_letter (s : Specifier) : (CodePoint.ofChar s.letter).isBlank = false := by
  cases s <;> decide

lemma isAsciiDigit_letter (s : Specifier) :
    (CodePoint.ofChar s.letter).isAsciiDigit = false := by
  cases s <;> decide

lemma eq_letter_of_ofLetter? {c : CodePoint} {s : Specifier} (h : Specifier.ofLetter? c = some s) :
    c = CodePoint.ofChar s.letter := by
  have hc := List.find?_some h
  exact (decide_eq_true_eq.mp hc).symm

lemma eq_mark_of_ofMark? {c : CodePoint} {order : ByteOrder}
    (h : ByteOrder.ofMark? c = some order) : c = CodePoint.ofChar order.mark := by
  have hc := List.find?_some h
  exact (decide_eq_true_eq.mp hc).symm

/-! ## Blanks at the ends -/

lemma blanks_nil : Blanks [] := fun _ hc => absurd hc List.not_mem_nil

lemma blanks_takeWhile (t : Text) : Blanks (t.takeWhile CodePoint.isBlank) :=
  fun _ => List.mem_takeWhile_imp

lemma digits_takeWhile (t : Text) : Digits (t.takeWhile CodePoint.isAsciiDigit) :=
  fun _ => List.mem_takeWhile_imp

lemma takeWhile_append_trimStart (t : Text) :
    t.takeWhile CodePoint.isBlank ++ t.trimStart = t := List.takeWhile_append_dropWhile

@[simp] theorem trimStart_trimStart (t : Text) : t.trimStart.trimStart = t.trimStart :=
  List.dropWhile_idempotent _ _

lemma trimStart_append {before : Text} (h : Blanks before) (t : Text) :
    Text.trimStart (before ++ t) = Text.trimStart t :=
  List.dropWhile_append_of_pos h

lemma trimStart_cons {c : CodePoint} (h : c.isBlank = false) (t : Text) :
    Text.trimStart (c :: t) = c :: t :=
  List.dropWhile_cons_of_neg (by simp [h])

lemma trimStart_eq_self {t : Text} (h : ∀ c ∈ t.head?, c.isBlank = false) : t.trimStart = t := by
  cases t with
  | nil => rfl
  | cons c t => exact trimStart_cons (h c rfl) t

lemma trimEnd_eq_self {t : Text} (h : ∀ c ∈ t.getLast?, c.isBlank = false) : t.trimEnd = t := by
  have hreverse : Text.trimStart t.reverse = t.reverse :=
    trimStart_eq_self fun c hc => h c (by rwa [List.head?_reverse] at hc)
  change (Text.trimStart t.reverse).reverse = t
  rw [hreverse, List.reverse_reverse]

lemma trimStart_entry {digits : Text} (h : Digits digits) (s : Specifier) (t : Text) :
    Text.trimStart (digits ++ CodePoint.ofChar s.letter :: t) =
      digits ++ CodePoint.ofChar s.letter :: t := by
  cases digits with
  | nil => exact trimStart_cons (isBlank_letter s) t
  | cons c digits => exact trimStart_cons (isBlank_of_isAsciiDigit (h c List.mem_cons_self)) _

lemma Opens.trimStart {e : Entry} {t u : Text} (h : Opens e t u) : Opens e t.trimStart u := by
  cases h with
  | intro s rest hbefore hdigits hafter =>
    rw [trimStart_append hbefore, trimStart_entry hdigits]
    exact .intro s u blanks_nil hdigits hafter

/-! ## Reading one entry -/

/-- What is read as an entry is one, and no blank is left behind it. -/
theorem opens_of_lexeme? {t : Text} {l : Lexeme} (h : lexeme? t = some l) :
    Opens ⟨l.digits, l.specifier⟩ t l.rest ∧ l.fromCount = t.trimStart := by
  unfold lexeme? at h
  simp only at h
  split at h
  · cases h
  · next c rest hd =>
    obtain ⟨s, hs, rfl⟩ := Option.map_eq_some_iff.mp h
    obtain rfl := eq_letter_of_ofLetter? hs
    have ht : t.takeWhile CodePoint.isBlank ++ (t.trimStart.takeWhile CodePoint.isAsciiDigit ++
        CodePoint.ofChar s.letter :: (rest.takeWhile CodePoint.isBlank ++ Text.trimStart rest)) =
        t := by
      rw [takeWhile_append_trimStart, ← hd, List.takeWhile_append_dropWhile,
        takeWhile_append_trimStart]
    have hopens := Opens.intro s (Text.trimStart rest) (blanks_takeWhile t)
      (digits_takeWhile t.trimStart) (blanks_takeWhile rest)
    rw [ht] at hopens
    exact ⟨hopens, rfl⟩

/-- An entry at the start is read as it is, with all the blanks behind it. -/
theorem lexeme?_of_opens {e : Entry} {t u : Text} (h : Opens e t u) :
    ∃ l, lexeme? t = some l ∧ l.digits = e.digits ∧ l.specifier = e.specifier ∧
      l.rest = u.trimStart := by
  cases h with
  | @intro before digits after s rest hbefore hdigits hafter =>
    have hfrom : Text.trimStart
          (before ++ (digits ++ CodePoint.ofChar s.letter :: (after ++ u))) =
        digits ++ CodePoint.ofChar s.letter :: (after ++ u) := by
      rw [trimStart_append hbefore, trimStart_entry hdigits]
    have hdrop : (digits ++ CodePoint.ofChar s.letter :: (after ++ u)).dropWhile
        CodePoint.isAsciiDigit = CodePoint.ofChar s.letter :: (after ++ u) := by
      rw [List.dropWhile_append_of_pos hdigits,
        List.dropWhile_cons_of_neg (by simp [isAsciiDigit_letter])]
    have htake : (digits ++ CodePoint.ofChar s.letter :: (after ++ u)).takeWhile
        CodePoint.isAsciiDigit = digits := by
      rw [List.takeWhile_append_of_pos hdigits,
        List.takeWhile_cons_of_neg (by simp [isAsciiDigit_letter]), List.append_nil]
    refine ⟨⟨digits, s, digits ++ CodePoint.ofChar s.letter :: (after ++ u), u.trimStart⟩,
      ?_, rfl, rfl, rfl⟩
    simp only [lexeme?, hfrom, hdrop, htake, Specifier.ofLetter?_letter, Option.map_some,
      trimStart_append hafter]

theorem lexeme?_trimStart (t : Text) : lexeme? t.trimStart = lexeme? t := by
  simp only [lexeme?, trimStart_trimStart]

lemma lexeme?_mark (order : ByteOrder) (t : Text) :
    lexeme? (CodePoint.ofChar order.mark :: t) = none := by
  have hblank : (CodePoint.ofChar order.mark).isBlank = false := by cases order <;> decide
  have hdigit : (CodePoint.ofChar order.mark).isAsciiDigit = false := by cases order <;> decide
  have hletter : Specifier.ofLetter? (CodePoint.ofChar order.mark) = none := by
    cases order <;> decide
  have hdrop : (CodePoint.ofChar order.mark :: t).dropWhile CodePoint.isAsciiDigit =
      CodePoint.ofChar order.mark :: t := List.dropWhile_cons_of_neg (by simp [hdigit])
  simp only [lexeme?, trimStart_cons hblank, hdrop, hletter, Option.map_none]

/-- The entry at the start of a text is the only one, and blanks apart so is what follows. -/
theorem Opens.unique {e e' : Entry} {t t' u u' : Text} (h : Opens e t u) (h' : Opens e' t' u')
    (ht : t.trimStart = t'.trimStart) : e = e' ∧ u.trimStart = u'.trimStart := by
  obtain ⟨l, hl, hdigits, hs, hrest⟩ := lexeme?_of_opens h
  obtain ⟨l', hl', hdigits', hs', hrest'⟩ := lexeme?_of_opens h'
  rw [← lexeme?_trimStart, ht, lexeme?_trimStart, hl'] at hl
  cases hl
  obtain ⟨digits, s⟩ := e
  obtain ⟨digits', s'⟩ := e'
  simp only at hdigits hs hdigits' hs'
  subst hdigits hs
  exact ⟨by rw [hdigits', hs'], hrest.symm.trans hrest'⟩

lemma not_opens_nil (e : Entry) (u : Text) : ¬Opens e [] u := by
  intro h
  obtain ⟨l, hl, -⟩ := lexeme?_of_opens h
  cases hl

lemma not_opens_mark (e : Entry) (order : ByteOrder) (t u : Text) :
    ¬Opens e (CodePoint.ofChar order.mark :: t) u := by
  intro h
  obtain ⟨l, hl, -⟩ := lexeme?_of_opens h
  rw [lexeme?_mark] at hl
  cases hl

/-! ## Reading entries in order -/

/-- There is nothing more, or another entry. -/
def Continues (t : Text) : Prop := t = [] ∨ ∃ e u, Opens e t u

lemma Spells.continues {es : List Entry} {t u : Text} (h : Spells es t u) (hu : Continues u) :
    Continues t := by
  cases h with
  | nil => exact hu
  | cons h _ => exact .inr ⟨_, _, h⟩

/-- Two readings of a text, blanks at its start apart, have the same entries. -/
theorem Spells.unique {es es' : List Entry} {t t' : Text} (h : Spells es t [])
    (h' : Spells es' t' []) (ht : t.trimStart = t'.trimStart) : es = es' := by
  generalize hend : ([] : Text) = rest at h
  induction h generalizing es' t' with
  | nil =>
    subst hend
    cases h' with
    | nil => rfl
    | cons h' _ =>
      have hnone := h'.trimStart
      rw [← ht] at hnone
      exact absurd hnone (not_opens_nil _ _)
  | cons h _ ih =>
    cases h' with
    | nil =>
      have hnone := h.trimStart
      rw [ht] at hnone
      exact absurd hnone (not_opens_nil _ _)
    | cons h' hs' =>
      obtain ⟨rfl, hrest⟩ := h.unique h' ht
      rw [ih hs' hrest hend]

/-- The digits of an entry are a piece of the text. -/
theorem Spells.digits_within {es : List Entry} {t u : Text} (h : Spells es t u) {e : Entry}
    (he : e ∈ es) : e.digits <:+: t ∧ Digits e.digits := by
  induction h with
  | nil => exact absurd he List.not_mem_nil
  | @cons _ _ _ u _ h _ ih =>
    cases h with
    | @intro before digits after s _ _ hdigits _ =>
      cases he with
      | head => exact ⟨⟨before, CodePoint.ofChar s.letter :: (after ++ u), by simp⟩, hdigits⟩
      | tail _ he =>
        obtain ⟨hwithin, hd⟩ := ih he
        refine ⟨hwithin.trans ⟨before ++ digits ++ CodePoint.ofChar s.letter :: after, [], ?_⟩, hd⟩
        simp

lemma tokens_nil (whole : Text) : tokens whole [] = .ok [] := by
  rw [tokens]
  rfl

lemma tokens_of_lexeme? (whole : Text) {t : Text} {l : Lexeme} (h : lexeme? t = some l) :
    tokens whole t = l.count?.bind fun count =>
      if count = 0 then .error (.zeroCount whole (whole.length - l.fromCount.length))
      else (tokens whole l.rest).map (⟨count, .known l.specifier⟩ :: ·) := by
  rw [tokens]
  split
  · next hnone => rw [h] at hnone; cases hnone
  · next l' hl =>
    rw [h] at hl
    cases hl
    rfl

lemma Lexeme.count?_eq {l : Lexeme} {e : Entry} (h : l.digits = e.digits) :
    l.count? = if Numeral.digitLimit < e.digits.length then
      .error (.countTooLong e.digits.length) else .ok e.count := by
  unfold Lexeme.count? Entry.count
  rw [h]
  by_cases hnone : e.digits = []
  · simp [hnone]
  · simp only [if_neg hnone]

/-- Where reading can go on, blanks at the start do not matter. -/
lemma tokens_trimStart (whole : Text) {t : Text} (h : Continues t) :
    tokens whole t.trimStart = tokens whole t := by
  obtain rfl | ⟨e, u, h⟩ := h
  · rfl
  · obtain ⟨l, hl, -⟩ := lexeme?_of_opens h
    rw [tokens_of_lexeme? whole hl, tokens_of_lexeme? whole ((lexeme?_trimStart t).trans hl)]

lemma tokens_of_opens (whole : Text) {e : Entry} {t u : Text} (h : Opens e t u) (he : e.Countable)
    (hu : Continues u) : tokens whole t = (tokens whole u).map (e.token :: ·) := by
  obtain ⟨l, hl, hdigits, hs, hrest⟩ := lexeme?_of_opens h
  have hcount : l.count? = .ok e.count := by
    rw [Lexeme.count?_eq hdigits, if_neg (Nat.not_lt.mpr he.1)]
  -- The blanks at the start of what follows are taken with this entry, which makes no difference.
  rw [tokens_of_lexeme? whole hl, hcount, hrest, tokens_trimStart whole hu, hs]
  simp only [Except.bind, if_neg he.2]
  rfl

/-- Entries in order are tokens in order. -/
theorem tokens_of_spells (whole : Text) {es : List Entry} {t u : Text} (h : Spells es t u)
    (hes : ∀ e ∈ es, e.Countable) (hu : Continues u) :
    tokens whole t = (tokens whole u).map (es.map Entry.token ++ ·) := by
  induction h with
  | nil t => cases tokens whole t <;> rfl
  | @cons e es t u rest h hs ih =>
    rw [tokens_of_opens whole h (hes e List.mem_cons_self) (hs.continues hu),
      ih (fun e' he' => hes e' (List.mem_cons_of_mem _ he')) hu]
    cases tokens whole rest <;> rfl

/-- An entry whose count has too many digits is refused when it is reached. -/
lemma tokens_of_overlong (whole : Text) {e : Entry} {t u : Text} (h : Opens e t u)
    (he : Numeral.digitLimit < e.digits.length) :
    tokens whole t = .error (.countTooLong e.digits.length) := by
  obtain ⟨l, hl, hdigits, -⟩ := lexeme?_of_opens h
  rw [tokens_of_lexeme? whole hl, Lexeme.count?_eq hdigits, if_pos he]
  rfl

/-- How the reading of entries ends where `u` is left of the text: at its end, where no entry
follows, or at the first entry that cannot be counted. -/
inductive Halt (whole u : Text) : Except Fault (List Token) → Prop where
  | finished : u = [] → Halt whole u (.ok [])
  | unexpected : u ≠ [] → (∀ e rest, ¬Opens e u rest) →
      Halt whole u (.error (.unexpectedCharacter whole (whole.length - u.length)))
  | zero {e : Entry} {rest : Text} : Opens e u rest → e.digits.length ≤ Numeral.digitLimit →
      e.count = 0 →
      Halt whole u (.error (.zeroCount whole (whole.length - u.trimStart.length)))
  | overlong {e : Entry} {rest : Text} : Opens e u rest →
      Numeral.digitLimit < e.digits.length → Halt whole u (.error (.countTooLong e.digits.length))

/-- Reading takes entries in order, up to where it ends. -/
theorem exists_halt (whole t : Text) :
    ∃ es u r, Spells es t u ∧ (∀ e ∈ es, e.Countable) ∧ Halt whole u r ∧
      tokens whole t = r.map (es.map Entry.token ++ ·) := by
  have hnil : ∀ e ∈ ([] : List Entry), e.Countable := fun e he => absurd he List.not_mem_nil
  -- Every branch but the last stops at once, with no entry read and all of the text left.
  fun_induction tokens whole t with
  | case1 _ => exact ⟨[], [], _, .nil _, hnil, .finished rfl, rfl⟩
  | case2 t hl ht =>
    refine ⟨[], t, _, .nil _, hnil, .unexpected ht fun e rest hopens => ?_, rfl⟩
    obtain ⟨l, hsome, -⟩ := lexeme?_of_opens hopens
    rw [hl] at hsome
    cases hsome
  | case3 t l hl ih =>
    obtain ⟨hopens, hfrom⟩ := opens_of_lexeme? hl
    have hcount := Lexeme.count?_eq (l := l) (e := ⟨l.digits, l.specifier⟩) rfl
    simp only [bind, Except.bind, pure, Except.pure, hcount]
    by_cases hlimit : Numeral.digitLimit < l.digits.length
    · rw [if_pos hlimit]
      exact ⟨[], t, _, .nil _, hnil, .overlong hopens hlimit, rfl⟩
    have hle := Nat.le_of_not_lt hlimit
    rw [if_neg hlimit]
    simp only
    by_cases hzero : Entry.count ⟨l.digits, l.specifier⟩ = 0
    · rw [if_pos hzero, hfrom]
      exact ⟨[], t, _, .nil _, hnil, .zero hopens hle hzero, rfl⟩
    rw [if_neg hzero]
    obtain ⟨es, u, r, hs, hes, hr, hrest⟩ := ih
    refine ⟨⟨l.digits, l.specifier⟩ :: es, u, r, .cons hopens hs, ?_, hr, ?_⟩
    · intro e he
      cases he with
      | head => exact ⟨hle, hzero⟩
      | tail _ he => exact hes e he
    · rw [hrest]
      cases r <;> rfl

/-! ## Reading whole descriptors -/

lemma markText_injective {mark? mark?' : Option ByteOrder} (h : markText mark? = markText mark?') :
    mark? = mark?' := by
  cases mark? with
  | none =>
    cases mark?' with
    | none => rfl
    | some order => cases h
  | some order =>
    cases mark?' with
    | none => cases h
    | some order' =>
      have hmark := congrArg ByteOrder.ofMark? (List.head_eq_of_cons_eq h)
      simpa using hmark

lemma exists_markText (t : Text) : ∃ mark?, t = markText mark? ++ (splitOrder t).2 ∧
    (splitOrder t).1 = mark?.getD .default := by
  unfold splitOrder
  split
  · exact ⟨none, rfl, rfl⟩
  · split
    · next h =>
      obtain rfl := eq_mark_of_ofMark? h
      exact ⟨some _, rfl, rfl⟩
    · exact ⟨none, rfl, rfl⟩

/-- A text is split at its mark when entries follow, since none starts with a mark. -/
lemma splitOrder_markText (mark? : Option ByteOrder) {fields : Text} (hc : Continues fields) :
    splitOrder (markText mark? ++ fields) = (mark?.getD .default, fields) := by
  cases mark? with
  | some order => simp [splitOrder, markText]
  | none =>
    cases fields with
    | nil => rfl
    | cons c rest =>
      cases h : ByteOrder.ofMark? c with
      | none => simp [splitOrder, markText, h]
      | some order =>
        obtain rfl := eq_mark_of_ofMark? h
        obtain hnil | ⟨e, u, hopens⟩ := hc
        · cases hnil
        · exact absurd hopens (not_opens_mark e order rest u)

lemma compile_eq (d : Text) :
    compile d = (tokens d.trim (splitOrder d.trim).2).map
      fun ts => ⟨(splitOrder d.trim).1, ts, d⟩ := by
  simp only [compile, bind, Except.bind, pure, Except.pure]
  cases tokens d.trim (splitOrder d.trim).2 <;> rfl

/-- A text has one reading at most. -/
theorem Grammatical.unique {mark? mark?' : Option ByteOrder} {es es' : List Entry} {t : Text}
    (h : Grammatical mark? es t) (h' : Grammatical mark?' es' t) : mark? = mark?' ∧ es = es' := by
  obtain ⟨fields, rfl, hs⟩ := h
  obtain ⟨fields', ht, hs'⟩ := h'
  have hsplit := splitOrder_markText mark? (hs.continues (.inl rfl))
  rw [ht, splitOrder_markText mark?' (hs'.continues (.inl rfl))] at hsplit
  obtain rfl : fields' = fields := congrArg Prod.snd hsplit
  exact ⟨markText_injective (List.append_cancel_right ht), hs.unique hs' rfl⟩

/-- A descriptor is accepted when it has a reading with counts that can be read. -/
theorem compile_eq_ok_iff {d : Text} {f : Format} :
    compile d = .ok f ↔ ∃ mark? es, Grammatical mark? es d.trim ∧ (∀ e ∈ es, e.Countable) ∧
      f = ⟨mark?.getD .default, es.map Entry.token, d⟩ := by
  rw [compile_eq]
  constructor
  · intro h
    obtain ⟨mark?, hm, horder⟩ := exists_markText d.trim
    obtain ⟨es, u, r, hs, hes, hr, htokens⟩ := exists_halt d.trim (splitOrder d.trim).2
    rw [htokens] at h
    cases hr with
    | finished hu =>
      subst hu
      cases h
      refine ⟨mark?, es, ⟨_, hm, hs⟩, hes, ?_⟩
      simp only [horder, List.append_nil]
    | unexpected | zero | overlong => cases h
  · rintro ⟨mark?, es, ⟨fields, hm, hs⟩, hes, rfl⟩
    rw [hm, splitOrder_markText mark? (hs.continues (.inl rfl)), ← hm]
    simp only [tokens_of_spells d.trim hs hes (.inl rfl), tokens_nil, Except.map, List.append_nil]

lemma trim_entry {digits : Text} (h : Digits digits) (s : Specifier) :
    Text.trim (digits ++ [CodePoint.ofChar s.letter]) = digits ++ [CodePoint.ofChar s.letter] := by
  rw [Text.trim, trimStart_entry h]
  refine trimEnd_eq_self fun c hc => ?_
  rw [List.getLast?_concat] at hc
  exact Option.mem_some_iff.mp hc ▸ isBlank_letter s

theorem compile_entry {digits : Text} {s : Specifier} (h : Digits digits)
    (hc : Entry.Countable ⟨digits, s⟩) :
    compile (digits ++ [CodePoint.ofChar s.letter]) =
      .ok ⟨.default, [Entry.token ⟨digits, s⟩], digits ++ [CodePoint.ofChar s.letter]⟩ := by
  have hopens : Opens ⟨digits, s⟩ (digits ++ [CodePoint.ofChar s.letter]) [] :=
    .intro s [] blanks_nil h blanks_nil
  refine compile_eq_ok_iff.mpr ⟨none, [⟨digits, s⟩], ⟨_, ?_, .cons hopens (.nil [])⟩, ?_, rfl⟩
  · exact trim_entry h s
  · simpa only [List.forall_mem_singleton] using hc

/-- Behind entries in order there is one whose count has `n` digits, which are too many. -/
def Overlong (d : Text) (n : ℕ) : Prop :=
  ∃ mark? fields es u e rest, d.trim = markText mark? ++ fields ∧ Spells es fields u ∧
    (∀ e ∈ es, e.Countable) ∧ Opens e u rest ∧ e.digits.length = n ∧ Numeral.digitLimit < n

/-- A descriptor is refused for the digits of a count when that is what comes first. -/
theorem compile_eq_countTooLong_iff {d : Text} {n : ℕ} :
    compile d = .error (.countTooLong n) ↔ Overlong d n := by
  rw [compile_eq]
  constructor
  · intro h
    obtain ⟨mark?, hm, -⟩ := exists_markText d.trim
    obtain ⟨es, u, r, hs, hes, hr, htokens⟩ := exists_halt d.trim (splitOrder d.trim).2
    rw [htokens] at h
    cases hr with
    | overlong hopens hlimit =>
      cases h
      exact ⟨mark?, _, es, u, _, _, hm, hs, hes, hopens, rfl, hlimit⟩
    | finished | unexpected | zero => cases h
  · rintro ⟨mark?, fields, es, u, e, rest, hm, hs, hes, hopens, rfl, hlimit⟩
    have hc : Continues u := .inr ⟨e, rest, hopens⟩
    rw [hm, splitOrder_markText mark? (hs.continues hc), ← hm]
    simp only [tokens_of_spells d.trim hs hes hc, tokens_of_overlong d.trim hopens hlimit,
      Except.map]

/-- Any other descriptor that is refused is refused at a place of its text. -/
theorem compile_eq_error {d : Text} {fault : Fault} (h : compile d = .error fault) :
    (∃ position, fault = .unexpectedCharacter d.trim position ∨
        fault = .zeroCount d.trim position) ∨
      ∃ n, fault = .countTooLong n := by
  rw [compile_eq] at h
  obtain ⟨es, u, r, -, -, hr, htokens⟩ := exists_halt d.trim (splitOrder d.trim).2
  rw [htokens] at h
  cases hr with
  | finished => cases h
  | unexpected => cases h; exact .inl ⟨_, .inl rfl⟩
  | zero => cases h; exact .inl ⟨_, .inr rfl⟩
  | overlong => cases h; exact .inr ⟨_, rfl⟩

/-! ## Runs of digits -/

/-- No run of digits is longer than a count may be. -/
def ShortRuns (t : Text) : Prop :=
  ∀ run, run <:+: t → Digits run → run.length ≤ Numeral.digitLimit

lemma trim_within (t : Text) : t.trim <:+: t := by
  have hend : t.trim <+: t.trimStart := by
    rw [← List.reverse_suffix]
    unfold Text.trim Text.trimEnd
    rw [List.reverse_reverse]
    exact List.dropWhile_suffix _
  exact hend.isInfix.trans (List.dropWhile_suffix _).isInfix

lemma ShortRuns.length_digits_le {d : Text} (hd : ShortRuns d) {mark? : Option ByteOrder}
    {es : List Entry} (h : Grammatical mark? es d.trim) {e : Entry} (he : e ∈ es) :
    e.digits.length ≤ Numeral.digitLimit := by
  obtain ⟨fields, hm, hs⟩ := h
  obtain ⟨hwithin, hdigits⟩ := hs.digits_within he
  have hfields : fields <:+: d.trim := hm ▸ (List.suffix_append _ _).isInfix
  exact hd _ ((hwithin.trans hfields).trans (trim_within d)) hdigits

end BinaryLayout.Descriptor
