import BinaryLayout.CommandLine
import BinaryLayout.Proofs.Concatenation
import BinaryLayout.Proofs.IntegerRanges
import BinaryLayout.Proofs.LayoutAgreement
import BinaryLayout.Proofs.Renditions
import BinaryLayout.Proofs.Sessions

/-!
# What a dump shows

A dump joins two walks over the tokens: one reads the values of a record that was cut out of the
data, the other lays out the fields from zero on. They are put together by number, and the offset
of the record is added back to that of each field. So each line shows the place of a field in the
data, the bytes at that place and the value that they stand for. A record that cannot be read is
not shown at all.
-/
namespace BinaryLayout

lemma Numeral.showable_of_mem_range {s : Specifier} {n : ℤ} (h : n ∈ s.range) : Showable n := by
  have hlarge : 10 ^ 20 ≤ 10 ^ digitLimit := Nat.pow_le_pow_right (by decide) (by decide)
  refine lt_of_lt_of_le ?_ hlarge
  cases s <;> simp [Specifier.range, Specifier.signed, Specifier.size] at h <;> omega

namespace FieldLayout

variable {e : FieldLayout} {order : ByteOrder} {raw : Bytes} {v : Value}

/-- What is read from a field has a literal within the digit limit, and that stays on its line. -/
lemma exists_literal_of_read (h : e.read order raw = .ok v) :
    ∃ literal, v.literal? = some literal ∧ v.showable = true ∧ newline ∉ literal := by
  by_cases hs : e.specifier.kind = .string
  · simp only [read, hs] at h
    cases ht : Field.decodeString raw with
    | error fault => rw [ht] at h; cases h
    | ok t =>
      rw [ht] at h
      cases h
      exact ⟨_, rfl, rfl, Quoted.newline_not_mem_ofText t⟩
  rw [read_of_ne_string hs] at h
  unfold Field.decode at h
  cases hk : e.specifier.kind with
  | pad | string => simp [hk] at h
  | char =>
    simp only [hk] at h
    split at h
    · cases h
    · cases h
      exact ⟨_, rfl, rfl, Quoted.newline_not_mem_ofText _⟩
  | int =>
    simp only [hk] at h
    split at h
    · next hwidth =>
      cases h
      have hlength : raw.length = e.specifier.size := hwidth
      have hfits := Word.fits_decode order.endian e.specifier.signed
        (hlength ▸ e.specifier.size_pos)
      rw [hlength] at hfits
      have hshowable := Numeral.showable_of_mem_range ((e.specifier.mem_range_iff _).mpr hfits)
      exact ⟨_, rfl, Value.showable_of_int? rfl hshowable, Numeral.newline_not_mem_ofInt _⟩
    · cases h
  | real =>
    simp only [hk] at h
    split at h
    · cases h
      exact ⟨_, rfl, rfl, Shortest.newline_not_mem_text _⟩
    · cases h

end FieldLayout

/-! ## Bytes of a record that is cut out of some data -/

namespace Bytes

variable {data : Bytes} {offset : ℤ}

lemma length_sliceFrom (h0 : 0 ≤ offset) :
    (data.sliceFrom offset).length = data.length - offset.toNat := by
  rw [sliceFrom, List.length_drop, place, if_neg (by omega)]
  omega

/-- The bytes of a field of a record are those at its place in the data, none of them missing. -/
lemma slice_sliceFrom (h0 : 0 ≤ offset) {e : FieldLayout} (he : 0 ≤ e.offset) (hpos : 0 < e.size)
    (hstop : e.stop ≤ (data.sliceFrom offset).length) :
    (data.sliceFrom offset).slice e.offset (e.offset + e.size) =
        data.slice (offset + e.offset) (offset + e.offset + e.size) ∧
      ((data.slice (offset + e.offset) (offset + e.offset + e.size)).length : ℤ) = e.size := by
  rw [length_sliceFrom h0] at hstop
  unfold FieldLayout.stop at hstop
  constructor
  · rw [sliceFrom_eq_slice, slice_slice h0 (le_refl _) he (by omega) (by omega)]
    congr 1 <;> omega
  · rw [length_slice (by omega) (by omega) (by omega)]
    omega

end Bytes

/-! ## Lines -/

namespace Dump

/-- What stands in the columns of a line. -/
structure Line where
  offset : Text
  kind : Text
  raw : Text
  value : Text
  bits : Text

def Line.text (l : Line) : Text := columns l.offset l.kind l.raw l.value l.bits

/-- The line shows a field that starts at `start` in the data: the offset, which reads back, and
the type; the bytes, which read back too, with their bits in order, those of greater weight first;
and their value, which is within the digit limit. It ends with the only line break in it. -/
structure Line.Shows (l : Line) (start : ℤ) (s : Specifier) (bytes : Bytes) (v : Value) : Prop where
  offset : l.offset = .join ["0x", Numeral.hexOfInt 8 start] ∧ Numeral.parse? l.offset = some start
  kind : l.kind = s.name
  raw : l.raw = bytes.hex ∧ Bytes.ofHex? l.raw = some bytes
  value : v.literal? = some l.value ∧ v.showable = true
  bits_length : l.bits.length = 8 * bytes.length
  bits : ∀ (k j : ℕ) (b : UInt8), bytes[k]? = some b → j < 8 → l.bits[8 * k + j]? =
    some (bitDigit (b.toNat.testBit (7 - j)))
  single : ∃ body, l.text = body ++ [newline] ∧ newline ∉ body

lemma newline_not_mem_padRight {t : Text} (h : newline ∉ t) (width : ℕ) :
    newline ∉ t.padRight width := by
  rw [Text.padRight, List.mem_append, not_or]
  exact ⟨h, fun hblank => absurd (List.eq_of_mem_replicate hblank) (by decide)⟩

lemma columns_single {offset kind raw value bits : Text} (ho : newline ∉ offset)
    (hk : newline ∉ kind) (hr : newline ∉ raw) (hv : newline ∉ value) (hb : newline ∉ bits) :
    ∃ body, columns offset kind raw value bits = body ++ [newline] ∧ newline ∉ body := by
  have hblank : newline ∉ Text.ofString " " := by decide
  refine ⟨.join [" ", offset.padRight 10, " ", kind.padRight 5, " ", raw.padRight 20, " ",
    value.padRight 24, " ", bits], by simp [columns, Text.join, Text.ofString, newline], ?_⟩
  simp [Text.join, hblank, hb, newline_not_mem_padRight ho, newline_not_mem_padRight hk,
    newline_not_mem_padRight hr, newline_not_mem_padRight hv]

lemma newline_not_mem_name (s : Specifier) : newline ∉ s.name := by cases s <;> decide

section Lines

variable [BitText]

/-- The columns for a field whose value has the given literal. -/
def lineOf (start : ℤ) (s : Specifier) (raw : Bytes) (literal : Text) : Line :=
  ⟨.join ["0x", Numeral.hexOfInt 8 start], s.name, raw.hex, literal, BitText.ofBytes raw⟩

/-- The columns that are filled in show the field. -/
lemma lineOf_shows (hbits : BitText.InOrder) {start : ℤ} (h0 : 0 ≤ start) (s : Specifier)
    (raw : Bytes) {v : Value} {literal : Text} (hv : v.literal? = some literal)
    (hshow : v.showable = true) (hl : newline ∉ literal) :
    (lineOf start s raw literal).Shows start s raw v := by
  obtain ⟨n, rfl⟩ := Int.eq_ofNat_of_zero_le h0
  have hhex : Numeral.hexOfInt 8 n = Numeral.hexOfNat 8 n := if_neg (by omega)
  have hoffset : newline ∉ (lineOf n s raw literal).offset := by
    have hmark : newline ∉ Text.ofString "0x" := by decide
    have hdigits := Numeral.newline_not_mem_hexOfNat 8 n
    simp [lineOf, hhex, Text.join, hmark, hdigits]
  exact {
    offset := ⟨rfl, by simpa only [lineOf, hhex] using Numeral.parse?_hexOfNat 8 n⟩
    kind := rfl
    raw := ⟨rfl, Bytes.ofHex?_hex raw⟩
    value := ⟨hv, hshow⟩
    bits_length := hbits.length_ofBytes raw
    bits := fun k j b hb hj => hbits.getElem?_ofBytes hb hj
    single := columns_single hoffset (newline_not_mem_name s) (Bytes.newline_not_mem_hex raw) hl
      (hbits.newline_not_mem raw) }

/-! ## Dumps -/

def lineFor (data : Bytes) (offset : ℤ) (values : List Value) (e : FieldLayout) : Line :=
  lineOf (offset + e.offset) e.specifier
    ((data.sliceFrom offset).slice e.offset (e.offset + e.size))
    ((values[e.index]?.bind Value.literal?).getD [])

/-- A dump is refused as reading the record is, and shows its fields if it can be read. -/
lemma run_dump {d : Text} {f : Format} (hd : Descriptor.compile d = .ok f)
    {fields : List FieldLayout} (hfields : f.layout = .ok fields) {s : Session} (hs : s.Sound)
    (data : Bytes) (offset : ℤ) :
    ((dump (.text d) (.ofBytes data) offset).run.run s).1 =
      (f.unpack (data.sliceFrom offset)).map fun values =>
        .join (header f ++ fields.map fun e => (lineFor data offset values e).text) := by
  obtain ⟨e, he, rfl, hsound⟩ := Session.exists_compile hd hs
  have hrecord : recordOf (.ofBytes data) offset = .ok (data.sliceFrom offset) := rfl
  obtain ⟨hread, -⟩ := Session.run_unpackFormat hsound e.format (data.sliceFrom offset) 0
  rw [dump, run_bind_pure, lines, run_bind_of_ok he, hrecord]
  dsimp only
  rw [hfields, run_report_ok_bind]
  cases hunpack : e.format.unpack (data.sliceFrom offset) with
  | error fault => rw [run_bind_of_error (hread.trans hunpack)]; rfl
  | ok values => rw [run_bind_of_ok (hread.trans hunpack)]; rfl

/-- The program prints a whole dump or nothing. -/
lemma output_dumpData (d path : Text) (data : Bytes) (offset : ℤ) (debug : Bool) :
    (CommandLine.dumpData d path data offset debug).output =
      (((dump (.text d) (.ofBytes data) offset).run.run .empty).1.toOption).getD [] := by
  have hrun : (dump (.text d) (.ofBytes data) offset).run Session.empty =
    (dump (.text d) (.ofBytes data) offset).run.run .empty := rfl
  rw [CommandLine.dumpData, hrun]
  rcases (dump (.text d) (.ofBytes data) offset).run.run .empty with ⟨fault | text, session⟩
  · dsimp only
    split <;> rfl
  · rfl

/-- A field of a record that was read has its value shown against its bytes. -/
lemma lineFor_shows (hbits : BitText.InOrder) {f : Format} {ps : List Placement} {stop : ℤ}
    (hw : f.walk 0 = ps.map .ok) (hc : Chain 0 ps stop) {data : Bytes} {offset : ℤ}
    (h0 : 0 ≤ offset) {values : List Value} (hread : f.unpack (data.sliceFrom offset) = .ok values)
    {i : ℕ} {e : FieldLayout} (he : (fieldsOf 0 ps)[i]? = some e) :
    ∃ v bytes, values[i]? = some v ∧
      bytes = data.slice (offset + e.offset) (offset + e.offset + e.size) ∧
      (bytes.length : ℤ) = e.size ∧ e.read f.order bytes = .ok v ∧
      (lineFor data offset values e).Shows (offset + e.offset) e.specifier bytes v := by
  obtain ⟨hin, hdecoded⟩ := (Format.unpackFrom_eq_ok_iff hw).mp hread
  have hmem := List.mem_of_getElem? he
  obtain ⟨hlow, hstop⟩ := hc.field_inside hin hmem
  have hpos := (hc.field_bounds hmem).1.positive
  obtain ⟨hslice, hlength⟩ := Bytes.slice_sliceFrom h0 hlow hpos hstop
  obtain ⟨v, hv, hvalue⟩ : ∃ v, values[i]? = some v ∧
      e.decode f.order (data.sliceFrom offset) = .ok v := by
    obtain ⟨hi, rfl⟩ := List.getElem?_eq_some_iff.mp he
    have hi' : i < values.length := hdecoded.length_eq ▸ hi
    exact ⟨values[i], List.getElem?_eq_getElem hi', hdecoded.get hi hi'⟩
  have hindex : e.index = i := by rw [index_of_getElem?_fieldsOf he, Nat.zero_add]
  rw [FieldLayout.decode, FieldLayout.bytes, FieldLayout.stop, hslice] at hvalue
  obtain ⟨literal, hliteral, hshow, hl⟩ := FieldLayout.exists_literal_of_read hvalue
  refine ⟨v, _, hv, rfl, hlength, hvalue, ?_⟩
  rw [lineFor, hslice, hindex, hv, Option.bind_some, hliteral, Option.getD_some]
  exact lineOf_shows hbits (by omega) e.specifier _ hliteral hshow hl

/-- A dump shows each value against its own bytes. If the record that starts at the offset can be
unpacked, the dump is the lines of its format and then one line for each field, in the order of
the layout: it shows where the field is in the data, all of the bytes that are there, and the
value, which is the one that was unpacked and is read from these bytes. If it cannot, the dump
fails in the same way, and the program prints nothing. -/
theorem dump_shows_fields (hbits : BitText.InOrder) {d : Text} {f : Format}
    (hd : Descriptor.compile d = .ok f) (data : Bytes) {offset : ℤ} (h0 : 0 ≤ offset)
    {s s' : Session} (hs : s.Sound) (hs' : s'.Sound) :
    ∃ fields, f.layout = .ok fields ∧ f.arity = .ok fields.length ∧
      (∀ values, ((Session.unpackFrom (.text d) (.ofBytes (data.sliceFrom offset)) 0).run.run
          s').1 = .ok values →
        ∃ lines : List Line, lines.length = fields.length ∧ values.length = fields.length ∧
          ((dump (.text d) (.ofBytes data) offset).run.run s).1 =
            .ok (.join (header f ++ lines.map Line.text)) ∧
          (∀ path debug, (CommandLine.dumpData d path data offset debug).output =
            .join (header f ++ lines.map Line.text)) ∧
          ∀ (i : ℕ) (e : FieldLayout), fields[i]? = some e → ∃ l v bytes, lines[i]? = some l ∧
            values[i]? = some v ∧
            bytes = data.slice (offset + e.offset) (offset + e.offset + e.size) ∧
            (bytes.length : ℤ) = e.size ∧ e.read f.order bytes = .ok v ∧
            l.Shows (offset + e.offset) e.specifier bytes v) ∧
      ∀ fault, ((Session.unpackFrom (.text d) (.ofBytes (data.sliceFrom offset)) 0).run.run
          s').1 = .error fault →
        ((dump (.text d) (.ofBytes data) offset).run.run s).1 = .error fault ∧
        ∀ path debug, (CommandLine.dumpData d path data offset debug).output = [] := by
  have hwell := Descriptor.wellFormed_of_compile hd
  obtain ⟨ps, stop, hw, hc⟩ := hwell.exists_chain 0
  have hfields : f.layout = .ok (fieldsOf 0 ps) := Format.fieldsFrom_of_walk hw
  have hdump := run_dump hd hfields hs data offset
  have hprinted := run_dump hd hfields Session.sound_empty data offset
  rw [Session.run_unpackFrom_text hd hs']
  refine ⟨fieldsOf 0 ps, hfields, Format.arity_of_walk hwell hw, fun values hread => ?_,
    fun fault hread => ?_⟩
  · have hunpack : f.unpack (data.sliceFrom offset) = .ok values := hread
    rw [hunpack] at hdump hprinted
    refine ⟨(fieldsOf 0 ps).map (lineFor data offset values), List.length_map _, ?_, ?_, ?_, ?_⟩
    · exact ((Format.unpackFrom_eq_ok_iff hw).mp hread).2.length_eq.symm
    · rw [hdump, List.map_map]
      rfl
    · intro path debug
      rw [output_dumpData, hprinted, List.map_map]
      rfl
    · intro i e he
      obtain ⟨v, bytes, hshown⟩ := lineFor_shows hbits hw hc h0 hunpack he
      exact ⟨_, v, bytes, by rw [List.getElem?_map, he]; rfl, hshown⟩
  · have hunpack : f.unpack (data.sliceFrom offset) = .error fault := hread
    rw [hunpack] at hdump hprinted
    refine ⟨hdump, fun path debug => ?_⟩
    rw [output_dumpData, hprinted]
    rfl

end Lines

/-- A record behind one byte that does not belong to it, and one whose string has no text. -/
theorem dump_shows_fields_behind :
    (∃ (f : Format) (l m : Line),
      ((dump (.text "<H 2s") (.ofBytes [0xFF, 2, 1, 0x61, 0x62]) 1).run.run .empty).1 =
        .ok (.join (header f ++ [l.text, m.text])) ∧
      l.Shows 1 .uint16 [2, 1] (.int 0x102) ∧ m.Shows 3 .string [0x61, 0x62] (.text "ab")) ∧
    ((dump (.text "<H 2s") (.ofBytes [0xFF, 2, 1, 0xFF, 0x62]) 1).run.run .empty).1 =
        .error (.invalidUtf8 [0xFF, 0x62] ⟨0, 1, 0xFF, .invalidStart⟩) ∧
      (CommandLine.dumpData "<H 2s" "a.bin" [0xFF, 2, 1, 0xFF, 0x62] 1 false).output = [] := by
  have hd : Descriptor.compile "<H 2s" =
      .ok ⟨.littleEndian, [⟨1, .known .uint16⟩, ⟨2, .known .string⟩], "<H 2s"⟩ := by cbv
  constructor
  · obtain ⟨fields, hfields, -, hshown, -⟩ :=
      dump_shows_fields bitText_inOrder hd [0xFF, 2, 1, 0x61, 0x62] (show (0 : ℤ) ≤ 1 by decide)
        Session.sound_empty Session.sound_empty
    obtain rfl : fields = [⟨0, 2, .uint16, 0⟩, ⟨2, 2, .string, 1⟩] :=
      Except.ok.inj (hfields.symm.trans (by rfl))
    have hread := Session.run_unpackFrom_text hd Session.sound_empty [2, 1, 0x61, 0x62] 0
    obtain ⟨lines, hlength, -, hdump, -, hlines⟩ :=
      hshown [.int 0x102, .text "ab"] (hread.trans (by cbv))
    obtain ⟨l, m, rfl⟩ := List.length_eq_two.mp hlength
    obtain ⟨_, _, _, ⟨⟩, ⟨⟩, rfl, -, -, hfirst⟩ := hlines 0 _ rfl
    obtain ⟨_, _, _, ⟨⟩, ⟨⟩, rfl, -, -, hsecond⟩ := hlines 1 _ rfl
    exact ⟨_, l, m, hdump, hfirst, hsecond⟩
  · obtain ⟨_, -, -, -, hrefused⟩ :=
      dump_shows_fields bitText_inOrder hd [0xFF, 2, 1, 0xFF, 0x62] (show (0 : ℤ) ≤ 1 by decide)
        Session.sound_empty Session.sound_empty
    have hread := Session.run_unpackFrom_text hd Session.sound_empty [2, 1, 0xFF, 0x62] 0
    obtain ⟨hdump, hprinted⟩ :=
      hrefused (.invalidUtf8 [0xFF, 0x62] ⟨0, 1, 0xFF, .invalidStart⟩) (hread.trans (by cbv))
    exact ⟨hdump, hprinted _ _⟩

end Dump

end BinaryLayout
