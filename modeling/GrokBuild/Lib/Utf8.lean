import GrokBuild.Lib.ByteText
import GrokBuild.Lib.TornLog

/-!
# UTF-8 in files of lines

Reading bytes as a text (`decodeUtf8`), which is undone by the encoding
(`decodeUtf8_eq_some`), and the tests of a reader that takes a file as a text:
a file is valid when it can be read as a text, and a line is blank when it is
white space only.
-/

namespace LineLog

open TextLines Str List

/-- `from_utf8`. -/
def decodeUtf8 (bytes : Bytes) : Option Text := bytes.toByteArray.utf8Decode?.map Array.toList

theorem decodeUtf8_eq_some {bytes : Bytes} {t : Text} :
    decodeUtf8 bytes = some t ↔ utf8Bytes t = bytes := by
  unfold decodeUtf8
  constructor
  · intro h
    obtain ⟨cs, hcs, rfl⟩ := Option.map_eq_some_iff.mp h
    have hsome : bytes.toByteArray.utf8Decode?.isSome := by rw [hcs]; rfl
    have hencode := ByteArray.utf8Encode_get_utf8Decode? (h := hsome)
    rw [Option.get_of_eq_some hsome hcs] at hencode
    exact toByteArray_inj.mp hencode
  · rintro rfl
    change (List.utf8Encode t).utf8Decode?.map Array.toList = some t
    rw [utf8Decode?_utf8Encode]
    rfl

theorem decodeUtf8_utf8Bytes (t : Text) : decodeUtf8 (utf8Bytes t) = some t :=
  decodeUtf8_eq_some.mpr rfl

def validUtf8 (bytes : Bytes) : Bool := (decodeUtf8 bytes).isSome

theorem validUtf8_iff {bytes : Bytes} : validUtf8 bytes = true ↔ ∃ t, utf8Bytes t = bytes := by
  rw [validUtf8, Option.isSome_iff_exists]
  exact exists_congr fun t => decodeUtf8_eq_some

theorem validUtf8_utf8Bytes (t : Text) : validUtf8 (utf8Bytes t) = true := validUtf8_iff.mpr ⟨t, rfl⟩

/-- `line.trim().is_empty()`. -/
def blankUtf8 (line : Bytes) : Bool := (decodeUtf8 line).any fun t => trim t = []

theorem lineTests_utf8 : LineTests validUtf8 blankUtf8 where
  blank_nil := by
    have hnil : decodeUtf8 [] = some [] := decodeUtf8_eq_some.mpr rfl
    rw [blankUtf8, hnil]
    rfl
  valid_nil := validUtf8_utf8Bytes []
  valid_newline := validUtf8_utf8Bytes ['\n']
  valid_append ha hb := by
    obtain ⟨s, rfl⟩ := validUtf8_iff.mp ha
    obtain ⟨t, rfl⟩ := validUtf8_iff.mp hb
    exact validUtf8_iff.mpr ⟨s ++ t, by simp [utf8Bytes]⟩

theorem blankUtf8_brace (rest : Bytes) : blankUtf8 (0x7B :: rest) = false := by
  unfold blankUtf8
  cases h : decodeUtf8 (0x7B :: rest) with
  | none => rfl
  | some t =>
    have hbytes := decodeUtf8_eq_some.mp h
    match t with
    | [] => exact absurd hbytes (by simp [utf8Bytes])
    | c :: t =>
      have hmem : (0x7B : UInt8) ∈ String.utf8EncodeChar c := by
        have hhead := congrArg List.head? hbytes
        rw [utf8Bytes, flatMap_cons, head?_append] at hhead
        cases hc : String.utf8EncodeChar c with
        | nil => exact absurd (congrArg List.length hc) (by simp [c.utf8Size_pos.ne'])
        | cons b bs =>
          rw [hc] at hhead
          obtain rfl : b = 0x7B := by simpa using hhead
          exact mem_cons_self
      have hc : c.toNat = 0x7B := (ByteText.utf8EncodeChar_of_mem (by decide) hmem).1
      have hblack : isWhitespace c = false := by simp [isWhitespace, hc]
      have htrim : trim (c :: t) ≠ [] := List.ne_nil_of_mem (mem_trim hblack mem_cons_self)
      simp [htrim]

end LineLog
