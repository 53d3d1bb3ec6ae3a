import Mathlib.Data.List.Basic
import VersionFloor.Text.Case
import VersionFloor.Text.Utf8

/-!
# Text: bytes character by character

An ASCII character is one byte below 0x80, every other character has only bytes above, so an ASCII
mark stands in the bytes where it stands in the text (`isPrefixOf_encodeChars`).
-/

namespace VersionFloor.Text

theorem toNat_ofNat {n : Nat} (h : n.isValidChar) : (Char.ofNat n).toNat = n := by
  rw [Char.ofNat, dif_pos h]
  rfl

/-- the bytes of a row of characters -/
def encodeChars (s : List Char) : Bytes := s.flatMap String.utf8EncodeChar

theorem encodeChars_cons (c : Char) (s : List Char) :
    encodeChars (c :: s) = String.utf8EncodeChar c ++ encodeChars s := rfl

theorem encodeChars_append (s t : List Char) :
    encodeChars (s ++ t) = encodeChars s ++ encodeChars t := List.flatMap_append

/-- the bytes of an array from a place on -/
theorem toList_loop_eq (bs : ByteArray) (i : Nat) (r : List UInt8) :
    ByteArray.toList.loop bs i r = r.reverse ++ bs.data.toList.drop i := by
  fun_induction ByteArray.toList.loop bs i r with
  | case1 i r hi ih =>
    have hlen : i < bs.data.toList.length := by rw [Array.length_toList]; exact hi
    have hget : bs.get! i = bs.data.toList[i] := by
      rw [Array.getElem_toList hi]
      exact getElem!_pos bs.data i hi
    rw [ih, List.drop_eq_getElem_cons hlen, hget, List.reverse_cons, List.append_assoc,
      List.singleton_append]
  | case2 i r hi =>
    have hlen : bs.data.toList.length ≤ i := by rw [Array.length_toList]; exact Nat.not_lt.mp hi
    rw [List.drop_of_length_le hlen, List.append_nil]

theorem encode_eq_data (s : String) : encode s = s.toByteArray.data.toList := by
  show ByteArray.toList.loop s.toByteArray 0 [] = _
  rw [toList_loop_eq]
  rfl

theorem encode_injective : Function.Injective encode := by
  intro s t h
  rw [encode_eq_data, encode_eq_data] at h
  exact String.toByteArray_inj.mp (ByteArray.ext (Array.toList_inj.mp h))

theorem encode_eq (s : String) : encode s = encodeChars s.toList := by
  rw [encode_eq_data, ← String.utf8Encode_toList, List.utf8Encode.eq_1,
    List.toList_data_toByteArray]
  rfl

theorem encode_ofList (s : List Char) : encode (String.ofList s) = encodeChars s := by
  rw [encode_eq, String.toList_ofList]

theorem utf8ByteSize_ofList (s : List Char) :
    (String.ofList s).utf8ByteSize = (encodeChars s).length := by
  rw [String.utf8ByteSize.eq_1, String.toByteArray_ofList, List.utf8Encode.eq_1]
  exact congrArg List.length List.toList_data_toByteArray

/-! ### ASCII -/

def isAscii (c : Char) : Bool := c.toNat < 0x80

theorem utf8EncodeChar_of_isAscii {c : Char} (h : isAscii c = true) :
    String.utf8EncodeChar c = [UInt8.ofNat c.toNat] := by
  have hc : c.toNat < 0x80 := of_decide_eq_true h
  rw [String.utf8EncodeChar.eq_1]
  exact if_pos (Nat.le_of_lt_succ hc)

/-- the other characters have no ASCII byte -/
theorem le_of_mem_utf8EncodeChar {c : Char} (h : isAscii c = false) {b : UInt8}
    (hb : b ∈ String.utf8EncodeChar c) : 0x80 ≤ b := by
  have hc : ¬ c.val.toNat ≤ 127 := fun hle => of_decide_eq_false h (Nat.lt_succ_of_le hle)
  have hle (n : Nat) (hn : 0x80 ≤ n) (hn' : n < 256) : 0x80 ≤ UInt8.ofNat n := by
    rw [UInt8.le_iff_toNat_le, UInt8.toNat_ofNat_of_lt' hn']
    exact hn
  rw [String.utf8EncodeChar.eq_1, if_neg hc] at hb
  split at hb
  · simp only [List.mem_cons, List.not_mem_nil, or_false] at hb
    rcases hb with rfl | rfl <;> exact hle _ (by omega) (by omega)
  split at hb
  · simp only [List.mem_cons, List.not_mem_nil, or_false] at hb
    rcases hb with rfl | rfl | rfl <;> exact hle _ (by omega) (by omega)
  · simp only [List.mem_cons, List.not_mem_nil, or_false] at hb
    rcases hb with rfl | rfl | rfl | rfl <;> exact hle _ (by omega) (by omega)

theorem ofNat_toNat_lt_of_isAscii {c : Char} (h : isAscii c = true) :
    UInt8.ofNat c.toNat < 0x80 := by
  have hc : c.toNat < 0x80 := of_decide_eq_true h
  rw [UInt8.lt_iff_toNat_lt, UInt8.toNat_ofNat_of_lt' (by rw [UInt8.size]; omega)]
  exact hc

theorem eq_of_ofNat_toNat_eq {c d : Char} (hc : isAscii c = true) (hd : isAscii d = true)
    (h : UInt8.ofNat c.toNat = UInt8.ofNat d.toNat) : c = d := by
  have hc' : c.toNat < 0x80 := of_decide_eq_true hc
  have hd' : d.toNat < 0x80 := of_decide_eq_true hd
  have hnat := congrArg UInt8.toNat h
  rw [UInt8.toNat_ofNat_of_lt' (by rw [UInt8.size]; omega),
    UInt8.toNat_ofNat_of_lt' (by rw [UInt8.size]; omega)] at hnat
  rw [← Char.ofNat_toNat c, hnat, Char.ofNat_toNat]

/-- an ASCII character is not looked for inside another character -/
theorem encodeChars_not_below {m : Char} (hm : isAscii m = true) {b : UInt8} (hb : 0x80 ≤ b)
    (mark : List Char) (s : Bytes) : ¬ encodeChars (m :: mark) <+: b :: s := by
  intro h
  rw [encodeChars_cons, utf8EncodeChar_of_isAscii hm, List.singleton_append] at h
  have hlt := ofNat_toNat_lt_of_isAscii hm
  rw [(List.cons_prefix_cons.mp h).1] at hlt
  exact UInt8.not_le.mpr hlt hb

/-- a mark of ASCII characters starts the bytes of a text when it starts the text -/
theorem encodeChars_prefix_iff {mark : List Char} (hmark : ∀ c ∈ mark, isAscii c = true)
    (s : List Char) : encodeChars mark <+: encodeChars s ↔ mark <+: s := by
  refine ⟨fun h => ?_, fun ⟨t, ht⟩ => ⟨encodeChars t, by rw [← encodeChars_append, ht]⟩⟩
  induction mark generalizing s with
  | nil => exact List.nil_prefix
  | cons m mark ih =>
    obtain ⟨hm, hmark⟩ := List.forall_mem_cons.mp hmark
    cases s with
    | nil =>
      rw [encodeChars_cons, utf8EncodeChar_of_isAscii hm] at h
      exact absurd (List.prefix_nil.mp h) (List.cons_ne_nil _ _)
    | cons c s =>
      cases hc : isAscii c with
      | true =>
        rw [encodeChars_cons, encodeChars_cons, utf8EncodeChar_of_isAscii hm,
          utf8EncodeChar_of_isAscii hc] at h
        obtain ⟨hbyte, h⟩ := List.cons_prefix_cons.mp h
        rw [eq_of_ofNat_toNat_eq hm hc hbyte]
        exact List.cons_prefix_cons.mpr ⟨rfl, ih hmark s h⟩
      | false =>
        obtain ⟨b, bs, hbytes⟩ := List.exists_cons_of_ne_nil (String.utf8EncodeChar_ne_nil (c := c))
        have hb : 0x80 ≤ b := le_of_mem_utf8EncodeChar hc (hbytes ▸ List.mem_cons_self)
        rw [encodeChars_cons c, hbytes] at h
        exact absurd h (encodeChars_not_below hm hb _ _)

/-! ### lower case -/

/-- what can be seen of all ASCII characters holds of each -/
theorem of_isAscii {p : Char → Bool}
    (hall : (List.range 128).all (fun n => p (Char.ofNat n)) = true) {c : Char}
    (h : isAscii c = true) : p c = true := by
  have hc := List.all_eq_true.mp hall c.toNat (List.mem_range.mpr (of_decide_eq_true h))
  rw [Char.ofNat_toNat] at hc
  exact hc

theorem asciiLower_of_not_isAscii {c : Char} (h : isAscii c = false) : asciiLower c = c :=
  if_neg fun hcapital => of_decide_eq_false h (Nat.lt_of_le_of_lt hcapital.2 (by decide))

theorem isAscii_asciiLower (c : Char) : isAscii (asciiLower c) = isAscii c := by
  cases hc : isAscii c with
  | true => exact of_isAscii (p := fun c => isAscii (asciiLower c)) (by decide +kernel) hc
  | false => rw [asciiLower_of_not_isAscii hc, hc]

/-- ASCII texts have no letter whose small one depends on its neighbours -/
theorem toList_lower_of_isAscii {s : String} (h : ∀ c ∈ s.toList, isAscii c = true) :
    (lower s).toList = s.toList.map asciiLower := by
  have hfrom : ∀ (cs before : List Char), (∀ c ∈ cs, isAscii c = true) →
      lowerFrom before cs = cs.map asciiLower := by
    intro cs
    induction cs with
    | nil => exact fun _ _ => rfl
    | cons c cs ih =>
      intro before hcs
      obtain ⟨hc, hcs⟩ := List.forall_mem_cons.mp hcs
      have hchar : lowerChar c = asciiLower c := if_pos (of_decide_eq_true hc)
      rw [lowerFrom, hchar, ih _ hcs, List.map_cons]
      · rintro rfl
        exact absurd hc (by decide)
      · rintro rfl
        exact absurd hc (by decide)
  rw [lower, String.toList_ofList, hfrom _ _ h]

/-- capitals and small letters take the same place -/
theorem length_encodeChars_map_asciiLower (s : List Char) :
    (encodeChars (s.map asciiLower)).length = (encodeChars s).length := by
  induction s with
  | nil => rfl
  | cons c s ih =>
    have hc : (String.utf8EncodeChar (asciiLower c)).length = (String.utf8EncodeChar c).length := by
      cases h : isAscii c with
      | true =>
        rw [utf8EncodeChar_of_isAscii h,
          utf8EncodeChar_of_isAscii ((isAscii_asciiLower c).trans h)]
        rfl
      | false => rw [asciiLower_of_not_isAscii h]
    rw [List.map_cons, encodeChars_cons, encodeChars_cons, List.length_append, List.length_append,
      ih, hc]

end VersionFloor.Text
