import LocatedHtml.Bytes.Source
import LocatedHtml.Proofs.Bytes.Utf8

/-!
The text of a file of any bytes. A file in UTF-8 is read as that and nothing is lost. Neither is anything lost
of another file if the code page defines all of its bytes. Of the files that are left no byte is passed over
in silence.
-/

namespace LocatedHtml

/-- The byte of the code page that stands for a character, if there is one. -/
def windowsByte? (c : Char) : Option UInt8 :=
  let n := c.toNat
  if n < 0x80 || 0xA0 ≤ n && n ≤ 0xFF then some (UInt8.ofNat n)
  else if undefinedWindowsBytes.contains n then none
  else (windowsCharacters.idxOf? n).map fun place => UInt8.ofNat (0x80 + place)

/-- The bytes of the code page for a text, if it has all the characters. -/
def encodeWindows? (t : Text) : Option Bytes := t.mapM windowsByte?

variable {bytes : Bytes} {t : Text}

/-- The bytes that the code page leaves undefined. -/
def isUndefined (b : UInt8) : Bool := undefinedWindowsBytes.contains b.toNat

theorem isUndefined_iff (b : UInt8) :
    isUndefined b = true ↔ b ∈ ([0x81, 0x8D, 0x8F, 0x90, 0x9D] : List UInt8) := by
  simp [isUndefined, undefinedWindowsBytes, ← UInt8.toNat_inj]

theorem windowsByte?_windowsCharacter {b : UInt8} (defined_ : isUndefined b = false) :
    windowsByte? (windowsCharacter b.toNat) = some b := by
  have all : ∀ n < 256, undefinedWindowsBytes.contains n = false →
      windowsByte? (windowsCharacter n) = some (UInt8.ofNat n) := by decide +kernel
  rw [all b.toNat b.toNat_lt defined_, UInt8.ofNat_toNat]

theorem decodeWindows?_of_defined (defined_ : ∀ b ∈ bytes, isUndefined b = false) :
    decodeWindows? bytes = some (bytes.map fun b => windowsCharacter b.toNat) := by
  have none : (bytes.any fun b => undefinedWindowsBytes.contains b.toNat) = false :=
    List.any_eq_false.2 fun b member => by rw [← isUndefined, defined_ b member]; exact Bool.false_ne_true
  rw [decodeWindows?, none, if_neg Bool.false_ne_true]

theorem decodeWindows?_of_undefined {b : UInt8} (member : b ∈ bytes) (undefined : isUndefined b = true) :
    decodeWindows? bytes = none := by
  have some_ : (bytes.any fun b => undefinedWindowsBytes.contains b.toNat) = true :=
    List.any_eq_true.2 ⟨b, member, undefined⟩
  rw [decodeWindows?, if_pos some_]

theorem encodeWindows?_of_defined (defined_ : ∀ b ∈ bytes, isUndefined b = false) :
    encodeWindows? (bytes.map fun b => windowsCharacter b.toNat) = some bytes := by
  induction bytes with
  | nil => rfl
  | cons b bytes ih =>
    obtain ⟨first, others⟩ := List.forall_mem_cons.1 defined_
    have rest := ih others
    rw [encodeWindows?] at rest ⊢
    rw [List.map_cons, List.mapM_cons, windowsByte?_windowsCharacter first, rest]
    rfl

theorem decodeSource_encodeUtf8 (t : Text) : decodeSource (encodeUtf8 t) = t := by
  rw [decodeSource, decodeUtf8?_encodeUtf8]

theorem decodeUtf8?_eq_none (other : ∀ t, bytes ≠ encodeUtf8 t) : decodeUtf8? bytes = none :=
  Option.eq_none_iff_forall_ne_some.2 fun t decoded => other t (decodeUtf8?_eq_some_iff.1 decoded)

/-- A file in UTF-8 has the text that it encodes. A file that is not, and that has no byte that the code page
leaves undefined, has a character for each byte, and its bytes can be told from these. Any other file has the
text of its bytes mended, which has a replacement character in it. -/
theorem decodeSource_lossless (bytes : Bytes) :
    (∀ t, bytes = encodeUtf8 t → decodeSource bytes = t) ∧
    ((∀ t, bytes ≠ encodeUtf8 t) → (∀ b ∈ bytes, b ∉ ([0x81, 0x8D, 0x8F, 0x90, 0x9D] : List UInt8)) →
      (decodeSource bytes).length = bytes.length ∧ encodeWindows? (decodeSource bytes) = some bytes) ∧
    ((∀ t, bytes ≠ encodeUtf8 t) → (∃ b ∈ bytes, b ∈ ([0x81, 0x8D, 0x8F, 0x90, 0x9D] : List UInt8)) →
      '\ufffd' ∈ decodeSource bytes ∧
      ∀ out, Mends bytes out ↔ out = encodeUtf8 (decodeSource bytes)) := by
  refine ⟨fun t encoded => by rw [encoded, decodeSource_encodeUtf8], fun other defined_ => ?_,
    fun other undefined => ?_⟩
  · have all : ∀ b ∈ bytes, isUndefined b = false := fun b member => by
      rw [← Bool.not_eq_true, isUndefined_iff]
      exact defined_ b member
    have same : decodeSource bytes = bytes.map fun b => windowsCharacter b.toNat := by
      rw [decodeSource, decodeUtf8?_eq_none other, decodeWindows?_of_defined all]
      rfl
    rw [same]
    exact ⟨List.length_map _, encodeWindows?_of_defined all⟩
  · obtain ⟨b, member, undefined⟩ := undefined
    have none := decodeUtf8?_eq_none other
    have same : decodeSource bytes = decodeUtf8Lossy bytes := by
      rw [decodeSource, none, decodeWindows?_of_undefined member ((isUndefined_iff b).2 undefined)]
      rfl
    rw [same]
    exact ⟨replacement_mem none, fun out => mends_iff⟩

/-- A word in UTF-8, the same word in the code page, and a character of four bytes that is broken off. -/
theorem decodeSource_lossless_each : ∃ utf8 windows broken : Bytes,
    utf8 = [0xC3, 0xA9] ∧ windows = [0xE9] ∧ broken = [0xF0, 0x90, 0x61, 0x81] ∧
    decodeSource utf8 = ['é'] ∧ encodeWindows? (decodeSource windows) = some windows ∧
    decodeSource windows = ['é'] ∧ Mends broken (encodeUtf8 ['\ufffd', 'a', '\ufffd']) := by
  have other {bytes : Bytes} (undecoded : decodeUtf8? bytes = none) (t : Text) : bytes ≠ encodeUtf8 t :=
    fun encoded => by
      rw [decodeUtf8?_eq_some_iff.2 encoded] at undecoded
      cases undecoded
  obtain ⟨utf8, _⟩ := decodeSource_lossless [0xC3, 0xA9]
  obtain ⟨_, windows, _⟩ := decodeSource_lossless [0xE9]
  obtain ⟨_, _, mended⟩ := decodeSource_lossless [0xF0, 0x90, 0x61, 0x81]
  refine ⟨_, _, _, rfl, rfl, rfl, utf8 ['é'] (by decide +kernel), ?_, by decide +kernel, ?_⟩
  · exact (windows (other (by decide +kernel)) (by decide +kernel)).2
  · exact ((mended (other (by decide +kernel)) (by decide)).2 _).2 (by decide +kernel)

end LocatedHtml
