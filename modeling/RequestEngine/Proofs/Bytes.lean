import Mathlib.Data.List.Basic
import RequestEngine.Files
import RequestEngine.Text.Bytes

/-! Texts and their bytes in UTF-8. Texts are ordered as their bytes are, and the bytes of a text
read back as that text. -/
namespace RequestEngine

namespace Text

def bytes (s : String) : List UInt8 := s.toByteArray.data.toList

theorem bytes_eq_flatMap (s : String) : bytes s = s.toList.flatMap String.utf8EncodeChar := by
  have h : s = String.ofList s.toList := by simp
  rw [bytes, h, String.toByteArray_ofList, List.utf8Encode]
  simp

theorem lt_or_eq_and_lt {v w : Nat} (h : v < w) :
    v / 64 < w / 64 ∨ v / 64 = w / 64 ∧ v % 64 < w % 64 := by omega

/-- A lesser character has lesser bytes, whatever follows. First bytes tell how many there are:
those of longer forms are greater. In forms of one length the bytes are digits of the character. -/
theorem utf8EncodeChar_append_lt {c d : Char} (h : c < d) (x y : List UInt8) :
    String.utf8EncodeChar c ++ x < String.utf8EncodeChar d ++ y := by
  have hlt : c.val.toNat < d.val.toNat := h
  have hd : d.val.toNat < 0x110000 := by
    rcases d.valid with h | h <;> omega
  unfold String.utf8EncodeChar
  dsimp only
  generalize c.val.toNat = v at *
  generalize d.val.toNat = w at *
  have hlast : ∀ n, (n % 64 + 128) % 2 ^ 8 = n % 64 + 128 := by omega
  have htwo : ∀ n, (n % 32 + 192) % 2 ^ 8 = n % 32 + 192 := by omega
  have hthree : ∀ n, (n % 16 + 224) % 2 ^ 8 = n % 16 + 224 := by omega
  have hfour : ∀ n, n < 0x110000 → (n / 262144 % 8 + 240) % 2 ^ 8 = n / 262144 + 240 := by omega
  have hv : v / 64 / 64 = v / 4096 ∧ v / 4096 / 64 = v / 262144 := by omega
  have hw : w / 64 / 64 = w / 4096 ∧ w / 4096 / 64 = w / 262144 := by omega
  have := lt_or_eq_and_lt hlt
  have := @lt_or_eq_and_lt (v / 64) (w / 64)
  have := @lt_or_eq_and_lt (v / 4096) (w / 4096)
  split_ifs <;>
    simp only [List.cons_append, List.nil_append, List.cons_lt_cons_iff, UInt8.lt_iff_toNat_lt,
      ← UInt8.toNat_inj, UInt8.toNat_ofNat', hlast, htwo, hthree, hfour v (by omega),
      hfour w hd] <;>
    omega

theorem flatMap_utf8EncodeChar_lt : ∀ {cs ds : List Char}, cs < ds →
    cs.flatMap String.utf8EncodeChar < ds.flatMap String.utf8EncodeChar
  | [], [], h => absurd h (List.lt_irrefl _)
  | _ :: _, [], h => absurd h (List.not_lt_nil _)
  | [], d :: ds, _ => by
    obtain ⟨b, bs, hb⟩ := List.exists_cons_of_ne_nil (String.utf8EncodeChar_ne_nil (c := d))
    simp [hb]
  | c :: cs, d :: ds, h => by
    rw [List.flatMap_cons, List.flatMap_cons]
    obtain hlt | ⟨rfl, hrest⟩ := List.cons_lt_cons_iff.1 h
    · exact utf8EncodeChar_append_lt hlt _ _
    · exact List.append_left_lt (flatMap_utf8EncodeChar_lt hrest)

/-- The order of texts is that of their bytes. -/
theorem bytes_lt_bytes {s t : String} : bytes s < bytes t ↔ s < t := by
  have key : ∀ {s t : String}, s < t → bytes s < bytes t := by
    intro s t h
    rw [bytes_eq_flatMap, bytes_eq_flatMap]
    exact flatMap_utf8EncodeChar_lt h
  refine ⟨fun h => ?_, key⟩
  by_contra hst
  rcases String.le_total s t with hle | hle
  · have heq : s = t := String.le_antisymm hle (String.not_lt.1 hst)
    exact List.lt_irrefl _ (heq ▸ h)
  · by_cases heq : t = s
    · exact List.lt_irrefl _ (heq ▸ h)
    · have hts : t < s := String.not_le.1 fun hle' => heq (String.le_antisymm hle hle')
      exact List.lt_asymm h (key hts)

theorem byteCount_eq_length {cs : List Char} (h : ∀ c ∈ cs, c.utf8Size = 1) :
    byteCount cs = cs.length := by
  induction cs with
  | nil => rfl
  | cons c cs ih =>
    rw [byteCount, h c List.mem_cons_self, ih fun d hd => h d (List.mem_cons_of_mem _ hd),
      List.length_cons, Nat.add_comm]

end Text

theorem textOfBytes_toByteArray (s : String) : textOfBytes s.toByteArray = .ok s := by
  simp [textOfBytes, String.fromUTF8?, s.isValidUTF8, String.fromUTF8]

end RequestEngine
