import Chip8.Memory.Dump
import Chip8.Proofs.TraceLines

/-!
# Hex dumps are lossless

A dump cuts a range of memory into rows and shows each of them on a line of its own.  Its lines can
be told without the recursion that writes them: the line with number `k` shows the bytes that begin
`k` widths behind the start (`Memory.dumpLines_eq_map`).  As no line has a break in it, no address a
colon and no byte a blank, the text can be taken apart again, and what it shows are the bytes of the
range at their addresses (`Memory.readDump_dumpText`).

Full lines do not depend on what follows them, so a range can be cut behind any of them and dumped in
two parts (`Memory.dump_split`).

The main result is `Memory.dump_is_lossless`.
-/

namespace Chip8.Memory

open Numeral Trace

variable {width : Nat} {bytes row : List UInt8}

/-! ## Rows -/

/-- The number of lines that a number of bytes take. -/
def lineCount (length width : Nat) : Nat :=
  (length + width - 1) / width

theorem lineCount_zero (hwidth : 0 < width) : lineCount 0 width = 0 := by
  rw [lineCount]
  exact Nat.div_eq_of_lt (by omega)

/-- The first line takes a full width, or all that there is. -/
theorem lineCount_eq_succ {length : Nat} (hwidth : 0 < width) (hlength : 0 < length) :
    lineCount length width = lineCount (length - width) width + 1 := by
  rw [lineCount, lineCount, ← Nat.add_div_right _ hwidth]
  by_cases hfull : width ≤ length
  · congr 1
    omega
  -- Behind a line that is not full there is nothing, and both sides are one line.
  · have hone : ∀ n, width ≤ n → n < 2 * width → n / width = 1 := fun n hle hlt =>
      Nat.div_eq_of_lt_le (by omega) (by omega)
    rw [hone _ (by omega) (by omega), hone _ (by omega) (by omega)]

/-- A piece of a range is a range. -/
theorem take_drop_slice (m : Memory) (a length k width : Nat) :
    ((m.slice a length).drop k).take width = m.slice (a + k) (min width (length - k)) := by
  apply List.ext_getElem
  · simp
  · intro j hj hj'
    simp [slice, Nat.add_assoc]

theorem dumpLines_nil (width : Nat) (address : Int) : dumpLines width address [] = [] := by
  rw [dumpLines, if_pos (.inl rfl)]

theorem dumpLines_cons (hwidth : 0 < width) (hbytes : bytes ≠ []) (address : Int) :
    dumpLines width address bytes =
      dumpLine address (bytes.take width) ::
        dumpLines width (address + width) (bytes.drop width) := by
  rw [dumpLines, if_neg (not_or.mpr ⟨hbytes, by omega⟩)]

theorem dumpLines_ne_nil (hwidth : 0 < width) (hbytes : bytes ≠ []) (address : Int) :
    dumpLines width address bytes ≠ [] := by
  rw [dumpLines_cons hwidth hbytes]
  exact List.cons_ne_nil _ _

/-- The lines of a dump by their numbers. -/
theorem dumpLines_eq_map (hwidth : 0 < width) (address : Int) (bytes : List UInt8) :
    dumpLines width address bytes =
      (List.range (lineCount bytes.length width)).map fun k =>
        dumpLine (address + (k * width : Nat)) ((bytes.drop (k * width)).take width) := by
  fun_induction dumpLines width address bytes with
  | case1 address bytes hempty =>
    obtain rfl : bytes = [] := hempty.resolve_right (by omega)
    rw [List.length_nil, lineCount_zero hwidth]
    rfl
  | case2 address bytes hne ih =>
    have hlength : 0 < bytes.length := List.length_pos_iff.mpr fun h => hne (.inl h)
    rw [lineCount_eq_succ hwidth hlength, List.range_succ_eq_map, List.map_cons, List.map_map, ih,
      List.length_drop]
    congr 1
    · simp
    · refine List.map_congr_left fun k _ => ?_
      have hnext : k.succ * width = width + k * width := by rw [Nat.succ_mul, Nat.add_comm]
      rw [Function.comp_apply, List.drop_drop, hnext]
      congr 1
      push_cast
      omega

/-- A dump can be cut behind any full line. -/
theorem dumpLines_append (hwidth : 0 < width) {k : Nat} {front : List UInt8}
    (hfront : front.length = k * width) (address : Int) (back : List UInt8) :
    dumpLines width address (front ++ back) =
      dumpLines width address front ++ dumpLines width (address + front.length) back := by
  induction k generalizing address front with
  | zero =>
    obtain rfl : front = [] := List.length_eq_zero_iff.mp (by omega)
    simp [dumpLines_nil]
  | succ k ih =>
    have hle : width ≤ front.length := by
      rw [hfront, Nat.succ_mul]
      omega
    have hne : front ≠ [] := by
      rintro rfl
      rw [List.length_nil] at hle
      omega
    have hrest : (front.drop width).length = k * width := by
      rw [List.length_drop, hfront, Nat.succ_mul, Nat.add_sub_cancel]
    have hend : address + width + (front.drop width).length = address + front.length := by
      rw [List.length_drop]
      omega
    have happend : front ++ back ≠ [] := List.append_ne_nil_of_left_ne_nil hne back
    -- The first line is the same, as the front has enough bytes for it.
    rw [dumpLines_cons hwidth happend, dumpLines_cons hwidth hne, List.take_append_of_le_length hle,
      List.drop_append_of_le_length hle, ih hrest, hend]
    rfl

/-! ## Lines of text -/

theorem toList_dumpLine (address : Int) (row : List UInt8) :
    (dumpLine address row).toList =
      hexChars .upper 3 address ++
        ':' :: ' ' :: [' '].intercalate (row.map fun b => hexChars .upper 2 b.toNat) := by
  simp [dumpLine, byteHex, Function.comp_def]

theorem plain_row (row : List UInt8) :
    Plain ([' '].intercalate (row.map fun b => hexChars .upper 2 b.toNat)) := by
  refine plain_intercalate (by decide) ?_
  simp

theorem newline_not_mem_dumpLine (address : Int) (row : List UInt8) :
    '\n' ∉ (dumpLine address row).toList := by
  simp [toList_dumpLine, (plain_hexChars _ _ _).2, (plain_row row).2]

theorem newline_not_mem_dumpLines (width : Nat) (address : Int) (bytes : List UInt8) :
    ∀ line ∈ dumpLines width address bytes, '\n' ∉ line.toList := by
  fun_induction dumpLines width address bytes with
  | case1 address bytes hempty => simp
  | case2 address bytes hne ih =>
    exact List.forall_mem_cons.mpr ⟨newline_not_mem_dumpLine address _, ih⟩

/-- The breaks tell where the lines end. -/
theorem splitOn_dumpText (hwidth : 0 < width) (hbytes : bytes ≠ []) (address : Int) :
    (dumpText width address bytes).toList.splitOn '\n' =
      (dumpLines width address bytes).map String.toList := by
  have hbreak : "\n".toList = ['\n'] := rfl
  rw [dumpText, String.toList_intercalate, hbreak]
  refine List.splitOn_intercalate '\n' ?_ ?_
  · rw [List.forall_mem_map]
    exact newline_not_mem_dumpLines width address bytes
  · simpa using dumpLines_ne_nil hwidth hbytes address

theorem dumpText_nil (width : Nat) (address : Int) : dumpText width address [] = "" := by
  rw [dumpText, dumpLines_nil]
  rfl

theorem dumpText_eq_empty_iff (hwidth : 0 < width) (address : Int) :
    dumpText width address bytes = "" ↔ bytes = [] := by
  constructor
  · intro h
    by_contra hbytes
    have hsplit := splitOn_dumpText hwidth hbytes address
    rw [h, dumpLines_cons hwidth hbytes, List.map_cons, toList_dumpLine] at hsplit
    simp at hsplit
  · rintro rfl
    exact dumpText_nil width address

/-- Texts without the empty ones, with breaks between them. -/
def joinTexts (texts : List String) : String :=
  "\n".intercalate (texts.filter (· ≠ ""))

@[simp] theorem joinTexts_empty_left (s : String) : joinTexts ["", s] = s := by
  by_cases hs : s = "" <;> simp [joinTexts, hs]

@[simp] theorem joinTexts_empty_right (s : String) : joinTexts [s, ""] = s := by
  by_cases hs : s = "" <;> simp [joinTexts, hs]

theorem joinTexts_pair {s t : String} (hs : s ≠ "") (ht : t ≠ "") :
    joinTexts [s, t] = s ++ "\n" ++ t := by
  simp [joinTexts, hs, ht]

/-- Where one part has no bytes, its text is empty and takes no break. -/
theorem dumpText_append (hwidth : 0 < width) {k : Nat} {front : List UInt8}
    (hfront : front.length = k * width) (address : Int) (back : List UInt8) :
    dumpText width address (front ++ back) =
      joinTexts [dumpText width address front, dumpText width (address + front.length) back] := by
  by_cases hfrontNil : front = []
  · simp [hfrontNil, dumpText_nil]
  · by_cases hbackNil : back = []
    · simp [hbackNil, dumpText_nil]
    · have hfrontText : dumpText width address front ≠ "" :=
        mt (dumpText_eq_empty_iff hwidth address).mp hfrontNil
      have hbackText : dumpText width (address + front.length) back ≠ "" :=
        mt (dumpText_eq_empty_iff hwidth _).mp hbackNil
      rw [joinTexts_pair hfrontText hbackText, dumpText, dumpLines_append hwidth hfront,
        String.intercalate_append_of_ne_nil (dumpLines_ne_nil hwidth hfrontNil _)
          (dumpLines_ne_nil hwidth hbackNil _)]
      rfl

/-! ## Reading a dump -/

/-- The bytes that a line shows, with their addresses. -/
def readDumpLine (line : List Char) : List (UInt8 × Nat) :=
  match line.splitOn ':' with
  | [address, row] =>
    ((row.tail.splitOn ' ').map fun ds => UInt8.ofNat (hexValue ds)).zipIdx (hexValue address)
  | _ => []

/-- The bytes that a dump shows, with their addresses. -/
def readDump (text : String) : List (UInt8 × Nat) :=
  (text.toList.splitOn '\n').flatMap readDumpLine

/-- There is one colon in a line, and there are blanks between the bytes only. -/
theorem readDumpLine_dumpLine (address : Nat) (hrow : row ≠ []) :
    readDumpLine (dumpLine address row).toList = row.zipIdx address := by
  have hcolon : (dumpLine address row).toList.splitOn ':' =
      [hexChars .upper 3 address,
        ' ' :: [' '].intercalate (row.map fun b => hexChars .upper 2 b.toNat)] := by
    rw [toList_dumpLine]
    exact splitOn_colon (plain_hexChars _ _ _) (by simp [plain_row])
  have hblank : ([' '].intercalate (row.map fun b => hexChars .upper 2 b.toNat)).splitOn ' ' =
      row.map fun b => hexChars .upper 2 b.toNat := by
    refine List.splitOn_intercalate ' ' ?_ ?_
    · simp [blank_not_mem_hexChars]
    · simpa using hrow
  rw [readDumpLine, hcolon]
  simp [hblank, Function.comp_def, hexValue_hexChars]

/-- The addresses go on from one line to the next.  Behind the last line there are none. -/
theorem zipIdx_take_append (bytes : List UInt8) (width address : Nat) :
    (bytes.take width).zipIdx address ++ (bytes.drop width).zipIdx (address + width) =
      bytes.zipIdx address := by
  by_cases hfull : width ≤ bytes.length
  · have hlength : (bytes.take width).length = width := by
      rw [List.length_take, Nat.min_eq_left hfull]
    conv_rhs => rw [← List.take_append_drop width bytes, List.zipIdx_append, hlength]
  · rw [List.take_of_length_le (by omega), List.drop_eq_nil_of_le (by omega), List.zipIdx_nil,
      List.append_nil]

theorem flatMap_dumpLines (hwidth : 0 < width) {address : Int} {first : Nat}
    (haddress : address = first) (bytes : List UInt8) :
    (dumpLines width address bytes).flatMap (fun line => readDumpLine line.toList) =
      bytes.zipIdx first := by
  -- The addresses of a dump are whole numbers; all that follow a natural one are natural.
  fun_induction dumpLines width address bytes generalizing first with
  | case1 address bytes hempty =>
    obtain rfl : bytes = [] := hempty.resolve_right (by omega)
    rfl
  | case2 address bytes hne ih =>
    subst haddress
    have hrow : bytes.take width ≠ [] := by
      simpa [List.take_eq_nil_iff, hwidth.ne'] using hne
    have hnext : (first : Int) + width = (first + width : Nat) := (Nat.cast_add first width).symm
    rw [List.flatMap_cons, readDumpLine_dumpLine first hrow, ih hnext, zipIdx_take_append]

/-- What a dump shows are its bytes, at their addresses. -/
theorem readDump_dumpText (hwidth : 0 < width) (address : Nat) (bytes : List UInt8) :
    readDump (dumpText width address bytes) = bytes.zipIdx address := by
  by_cases hbytes : bytes = []
  · rw [hbytes, dumpText_nil]
    rfl
  · rw [readDump, splitOn_dumpText hwidth hbytes, List.flatMap_map, flatMap_dumpLines hwidth rfl]

/-! ## Dumps of a memory -/

/-- A line that shows bytes of a memory: the address of the first with at least three digits, a
colon, and two digits for each byte, with blanks between them. -/
def ShowsBytes (m : Memory) (address count : Nat) (line : List Char) : Prop :=
  ∃ digits fields,
    line = digits ++ ':' :: ' ' :: [' '].intercalate fields ∧
    IsHex 3 address digits ∧
    fields.length = count ∧
    ∀ k, (h : k < fields.length) →
      IsHex 2 (m.byte (address + k)).toNat fields[k] ∧ fields[k].length = 2

theorem showsBytes_dumpLine (m : Memory) (address count : Nat) :
    m.ShowsBytes address count (dumpLine address (m.slice address count)).toList := by
  refine ⟨_, _, toList_dumpLine _ _, isHex_hexChars (by omega) address, by simp, fun k hk => ?_⟩
  have hbyte : ∀ b : UInt8, b.toNat < 16 ^ 2 := fun b => b.toNat_lt
  simp only [List.getElem_map, slice, List.getElem_range]
  exact ⟨isHex_hexChars (by omega) _, length_hexChars .upper (by omega) (hbyte _)⟩

/-- The lines of the dump of a range by their numbers. -/
theorem splitOn_dumpText_slice (m : Memory) (start : Nat) {length : Nat} (hwidth : 0 < width)
    (hlength : length ≠ 0) :
    (dumpText width start (m.slice start length)).toList.splitOn '\n' =
      (List.range (lineCount length width)).map fun k =>
        (dumpLine (start + k * width : Nat)
          (m.slice (start + k * width) (min width (length - k * width)))).toList := by
  have hbytes : m.slice start length ≠ [] := by
    rw [← List.length_pos_iff, length_slice]
    omega
  rw [splitOn_dumpText hwidth hbytes, dumpLines_eq_map hwidth, length_slice]
  simp [take_drop_slice]

/-- What is to be seen in the dump of a range. -/
structure IsDump (m : Memory) (start length width : Nat) (text : String) : Prop where
  /-- Only a dump of nothing is empty. -/
  empty_iff : text = "" ↔ length = 0
  /-- There are just as many lines as the bytes need. -/
  length_lines : length ≠ 0 → (text.toList.splitOn '\n').length = lineCount length width
  /-- Each line shows its part of the range. -/
  line : ∀ k < lineCount length width, ∃ line,
    (text.toList.splitOn '\n')[k]? = some line ∧
      m.ShowsBytes (start + k * width) (min width (length - k * width)) line

theorem isDump_dumpText (m : Memory) (start length : Nat) (hwidth : 0 < width) :
    m.IsDump start length width (dumpText width start (m.slice start length)) where
  empty_iff := by
    rw [dumpText_eq_empty_iff hwidth, ← List.length_eq_zero_iff, length_slice]
  length_lines := by
    intro hlength
    rw [splitOn_dumpText_slice m start hwidth hlength, List.length_map, List.length_range]
  line := by
    intro k hk
    have hlength : length ≠ 0 := by
      rintro rfl
      rw [lineCount_zero hwidth] at hk
      omega
    refine ⟨_, ?_, showsBytes_dumpLine m _ _⟩
    rw [splitOn_dumpText_slice m start hwidth hlength, List.getElem?_map, List.getElem?_range hk]
    rfl

/-- The dumps that there are. -/
theorem dump_eq_ok_iff {m : Memory} {start width : Int} {length? : Option Int} {text : String} :
    m.dump start length? width = .ok text ↔
      m.InBounds start (length?.getD (m.size - start)) ∧ width ≠ 0 ∧
        text = dumpText width.toNat start
          (m.slice start.toNat (length?.getD (m.size - start)).toNat) := by
  unfold dump read
  by_cases hrange : m.InBounds start (length?.getD (m.size - start))
  · by_cases hwidth : width = 0
    · simp [hrange, hwidth]
    · simp [hrange, hwidth, eq_comm]
  · simp [hrange]

/-- A range that leaves the memory is refused, whatever the width. -/
theorem dump_of_not_inBounds {m : Memory} {start : Int} {length? : Option Int}
    (h : ¬ m.InBounds start (length?.getD (m.size - start))) (width : Int) :
    m.dump start length? width = .error (refusal start (length?.getD (m.size - start))) := by
  unfold dump read
  rw [if_neg h]

/-- A range to the end of the memory with too many bytes to be named is refused for that reason. -/
theorem dump_of_not_writable {m : Memory} {start : Int} (h : ¬ m.InBounds start (m.size - start))
    (hlong : ¬ Writable (m.size - start)) (width : Int) :
    m.dump start none width = .error (.tooManyDigits ⟨m.size - start⟩) := by
  rw [dump_of_not_inBounds h, Option.getD_none, refusal, if_neg hlong]

/-- The rest of a memory can be dumped from where the memory is or just ends. -/
theorem inBounds_rest_iff (m : Memory) (start : Int) :
    m.InBounds start (m.size - start) ↔ 0 ≤ start ∧ start ≤ m.size := by
  unfold InBounds
  omega

theorem slice_append (m : Memory) (a k length : Nat) :
    m.slice a k ++ m.slice (a + k) length = m.slice a (k + length) := by
  rw [slice, slice, slice, List.range_add, List.map_append, List.map_map]
  simp [Function.comp_def, Nat.add_assoc]

/-- A dump can be made in two parts, cut behind any full line. -/
theorem dump_split {m : Memory} {start : Int} {length k : Nat} (hwidth : 0 < width)
    (hk : k ≤ length / width) {text : String} :
    m.dump start (some length) width = .ok text ↔
      ∃ front back,
        m.dump start (some (k * width : Nat)) width = .ok front ∧
        m.dump (start + (k * width : Nat)) (some (length - k * width : Nat)) width = .ok back ∧
        text = joinTexts [front, back] := by
  have hcut : k * width ≤ length := (Nat.le_div_iff_mul_le hwidth).mp hk
  have hrange : m.InBounds start length ↔
      m.InBounds start (k * width : Nat) ∧
        m.InBounds (start + (k * width : Nat)) (length - k * width : Nat) := by
    unfold InBounds
    omega
  have htext (hstart : 0 ≤ start) : dumpText width start (m.slice start.toNat length) =
      joinTexts [dumpText width start (m.slice start.toNat (k * width)),
        dumpText width (start + (k * width : Nat))
          (m.slice (start + (k * width : Nat)).toNat (length - k * width))] := by
    have hend : (start + (k * width : Nat)).toNat = start.toNat + k * width := by omega
    have hwhole := m.slice_append start.toNat (k * width) (length - k * width)
    rw [Nat.add_sub_cancel' hcut] at hwhole
    rw [hend, ← hwhole, dumpText_append hwidth (length_slice _ _ _), length_slice]
  simp only [dump_eq_ok_iff, Option.getD_some, Int.toNat_natCast]
  constructor
  · rintro ⟨hwhole, hne, rfl⟩
    obtain ⟨hfront, hback⟩ := hrange.mp hwhole
    exact ⟨_, _, ⟨hfront, hne, rfl⟩, ⟨hback, hne, rfl⟩, htext hwhole.1⟩
  · rintro ⟨front, back, ⟨hfront, hne, rfl⟩, ⟨hback, -, rfl⟩, rfl⟩
    exact ⟨hrange.mpr ⟨hfront, hback⟩, hne, (htext hfront.1).symm⟩

/-- **Dumps lose nothing.**  A range inside the memory can be dumped and read back; the dump of a range
is made of the dumps of its parts; without a length, a dump goes to the end of the memory; and a
range that leaves the memory is refused before the width is looked at.  The refusal names the range,
unless its length has too many digits. -/
theorem dump_is_lossless (m : Memory) :
    (∀ start length width : Nat, 0 < width → start + length ≤ m.size →
      ∃ bytes text, m.read start length = .ok bytes ∧ m.dump start (some length) width = .ok text ∧
        m.IsDump start length width text ∧ readDump text = bytes.zipIdx start) ∧
    (∀ (start : Int) (length width k : Nat), 0 < width → k ≤ length / width → ∀ text,
      m.dump start (some length) width = .ok text ↔
        ∃ front back,
          m.dump start (some (k * width : Nat)) width = .ok front ∧
          m.dump (start + (k * width : Nat)) (some (length - k * width : Nat)) width = .ok back ∧
          text = joinTexts [front, back]) ∧
    (∀ start width : Int,
      m.dump start none width = m.dump start (some (m.size - start)) width ∧
      (width ≠ 0 → ((∃ text, m.dump start none width = .ok text) ↔ 0 ≤ start ∧ start ≤ m.size))) ∧
    ∀ (start : Int) (length? : Option Int),
      (¬ m.InBounds start (length?.getD (m.size - start)) → ∀ width,
        (Writable (length?.getD (m.size - start)) → m.dump start length? width =
          .error (.outOfBounds ⟨start, length?.getD (m.size - start)⟩)) ∧
        (¬ Writable (length?.getD (m.size - start)) → m.dump start length? width =
          .error (.tooManyDigits ⟨length?.getD (m.size - start)⟩))) ∧
      (m.InBounds start (length?.getD (m.size - start)) →
        m.dump start length? 0 = .error .zeroWidth) := by
  refine ⟨?_, ?_, ?_, ?_⟩
  · intro start length width hwidth hend
    have hrange : m.InBounds start length := by
      unfold InBounds
      omega
    refine ⟨m.slice start length, dumpText width start (m.slice start length), ?_, ?_,
      m.isDump_dumpText start length hwidth, readDump_dumpText hwidth start _⟩
    · rw [read, if_pos hrange]
      simp
    · rw [dump_of_inBounds hrange (by omega)]
      simp
  · intro start length width k hwidth hk text
    exact dump_split hwidth hk
  · intro start width
    refine ⟨rfl, ?_⟩
    intro hwidth
    simp only [dump_eq_ok_iff, Option.getD_none, inBounds_rest_iff]
    constructor
    · rintro ⟨text, hrange, -⟩
      exact hrange
    · intro hrange
      exact ⟨_, hrange, hwidth, rfl⟩
  · intro start length?
    constructor
    · intro hrange width
      rw [dump_of_not_inBounds hrange, refusal]
      constructor
      · intro hshort
        rw [if_pos hshort]
      · intro hlong
        rw [if_neg hlong]
    · intro hrange
      unfold dump read
      rw [if_pos hrange]
      rfl

/-- Three lines, the last of them not full, and addresses with three digits and with four. -/
theorem dump_beyond_three_digits :
    0 < 8 ∧ 4088 + 20 ≤ (blank 5000).size ∧
      ∃ bytes text, (blank 5000).read 4088 20 = .ok bytes ∧
        (blank 5000).dump 4088 (some 20) 8 = .ok text ∧
        (text.toList.splitOn '\n').length = 3 ∧ readDump text = bytes.zipIdx 4088 := by
  have hend : 4088 + 20 ≤ (blank 5000).size := by
    rw [size_blank]
    omega
  obtain ⟨bytes, text, hread, hdump, hlines, hback⟩ :=
    (dump_is_lossless (blank 5000)).1 4088 20 8 (by decide) hend
  exact ⟨by decide, hend, bytes, text, hread, hdump, hlines.length_lines (by decide), hback⟩

/-- So far in front of the memory, the number of bytes up to its end has one digit too many.  The dump
is refused, but the refusal does not name the range. -/
theorem far_dump_is_not_named :
    ¬ (blank 4096).InBounds (1 - Nat.pow 10 4300) ((blank 4096).size - (1 - Nat.pow 10 4300)) ∧
      (blank 4096).dump (1 - Nat.pow 10 4300) none 16 =
        .error (.tooManyDigits ⟨(blank 4096).size - (1 - Nat.pow 10 4300)⟩) := by
  have hrange :
      ¬ (blank 4096).InBounds (1 - Nat.pow 10 4300) ((blank 4096).size - (1 - Nat.pow 10 4300)) := by
    rintro ⟨hstart, -, -⟩
    exact absurd hstart (by decide +kernel)
  have hlong : ¬ Writable ((blank 4096).size - (1 - Nat.pow 10 4300)) := by
    rw [size_blank, writable_iff]
    decide +kernel
  exact ⟨hrange, dump_of_not_writable hrange hlong 16⟩

end Chip8.Memory
