import FCord.Data.Json
import Mathlib.Tactic.IntervalCases

/-!
# Percent encoding

A text is written into a URL byte by byte: each byte of its UTF-8 encoding is either the character
it is or its two hexadecimal digits.  Encodings differ in the characters they keep, and in how they
write a space.  Whatever they keep, the bytes can be read back (`decodeBytes_encodeBytes`), so
different texts stay different.
-/

namespace FCord

namespace Uri

/-- How texts are written into URLs. -/
structure Encoding where
  /-- The characters that are left as they are. -/
  kept : Char → Bool
  /-- A space is written as a plus sign. -/
  plus : Bool
  /-- A character that has a meaning in URLs is never left as it is. -/
  reserved : ['%', '+', '/', '?', '#', '&', '='].all (!kept ·) = true

/-- `encodeURIComponent` -/
def Encoding.component : Encoding where
  kept c := c.isAlphanum || ['-', '_', '.', '!', '~', '*', '\x27', '(', ')'].contains c
  plus := false
  reserved := by decide

/-- `application/x-www-form-urlencoded` -/
def Encoding.form : Encoding where
  kept c := c.isAlphanum || ['*', '-', '.', '_'].contains c
  plus := true
  reserved := by decide

/-- The upper-case hexadecimal digit of `d < 16`. -/
def hexDigit (d : ℕ) : Char := if d < 10 then Char.ofNat (48 + d) else Char.ofNat (55 + d)

namespace Encoding

variable (e : Encoding)

/-- How a byte is written. -/
def encodeByte (b : UInt8) : List Char :=
  if e.plus ∧ b = 32 then ['+']
  else if e.kept (Char.ofNat b.toNat) then [Char.ofNat b.toNat]
  else ['%', hexDigit (b.toNat / 16), hexDigit (b.toNat % 16)]

def encodeBytes (bs : List UInt8) : List Char := bs.flatMap e.encodeByte

/-- The byte that a single character stands for. -/
def decodeChar (c : Char) : UInt8 := if e.plus ∧ c = '+' then 32 else UInt8.ofNat c.toNat

/-- The bytes of a text that has been written so. -/
def decodeBytes : List Char → List UInt8
  | [] => []
  | [c] => [e.decodeChar c]
  | [c, c'] => [e.decodeChar c, e.decodeChar c']
  | c :: hi :: lo :: r =>
    if c = '%' then
      UInt8.ofNat ((Json.hexValue hi).getD 0 * 16 + (Json.hexValue lo).getD 0) :: decodeBytes r
    else e.decodeChar c :: decodeBytes (hi :: lo :: r)

def encode (s : String) : String := String.ofList (e.encodeBytes s.toByteArray.data.toList)

/-- A parameter of a query. -/
def param (key value : String) : String := e.encode key ++ "=" ++ e.encode value

end Encoding

theorem hexValue_hexDigit {d : ℕ} (h : d < 16) : Json.hexValue (hexDigit d) = some d := by
  interval_cases d <;> decide

theorem isAlphanum_hexDigit {d : ℕ} (h : d < 16) : (hexDigit d).isAlphanum = true := by
  interval_cases d <;> decide

theorem toNat_ofNat_of_lt {n : ℕ} (h : n < 256) : (Char.ofNat n).toNat = n := by
  have hvalid : n.isValidChar := .inl (by omega)
  rw [Char.ofNat, dif_pos hvalid]
  rfl

namespace Encoding

variable {e : Encoding}

theorem ne_of_kept {c d : Char} (hd : d ∈ ['%', '+', '/', '?', '#', '&', '='])
    (h : e.kept c = true) : c ≠ d := by
  rintro rfl
  have hreserved := List.all_eq_true.1 e.reserved c hd
  rw [h] at hreserved
  cases hreserved

theorem decodeBytes_cons_of_ne {c : Char} (h : c ≠ '%') (r : List Char) :
    e.decodeBytes (c :: r) = e.decodeChar c :: e.decodeBytes r := by
  match r with
  | [] => rfl
  | [_] => rfl
  | _ :: _ :: _ => rw [decodeBytes, if_neg h]

/-- **A byte is read back.** -/
theorem decodeBytes_encodeByte (b : UInt8) (r : List Char) :
    e.decodeBytes (e.encodeByte b ++ r) = b :: e.decodeBytes r := by
  have hb : b.toNat < 256 := b.toNat_lt
  unfold encodeByte
  split_ifs with hspace hkept
  · obtain ⟨hplus, rfl⟩ := hspace
    rw [List.singleton_append, decodeBytes_cons_of_ne (by decide), decodeChar,
      if_pos ⟨hplus, rfl⟩]
  · have hne : ¬ (e.plus ∧ Char.ofNat b.toNat = '+') := fun h =>
      ne_of_kept (by decide) hkept h.2
    rw [List.singleton_append, decodeBytes_cons_of_ne (ne_of_kept (by decide) hkept), decodeChar,
      if_neg hne, toNat_ofNat_of_lt hb]
    simp
  · simp only [List.cons_append, List.nil_append, decodeBytes, if_true,
      hexValue_hexDigit (show b.toNat / 16 < 16 by omega),
      hexValue_hexDigit (show b.toNat % 16 < 16 by omega), Option.getD_some]
    rw [show b.toNat / 16 * 16 + b.toNat % 16 = b.toNat by omega]
    simp

theorem decodeBytes_encodeBytes (bs : List UInt8) : e.decodeBytes (e.encodeBytes bs) = bs := by
  induction bs with
  | nil => rfl
  | cons b bs ih =>
    rw [encodeBytes, List.flatMap_cons, decodeBytes_encodeByte, ← encodeBytes, ih]

theorem encode_inj {s t : String} (h : e.encode s = e.encode t) : s = t := by
  have hbytes := congrArg (fun s => e.decodeBytes s.toList) h
  simp only [encode, String.toList_ofList, decodeBytes_encodeBytes] at hbytes
  exact String.toByteArray_inj.1 (ByteArray.ext (Array.toList_inj.1 hbytes))

theorem mem_encodeByte {b : UInt8} {c : Char} (h : c ∈ e.encodeByte b) :
    e.kept c = true ∨ c.isAlphanum = true ∨ c = '%' ∨ c = '+' := by
  have hb : b.toNat < 256 := b.toNat_lt
  unfold encodeByte at h
  split_ifs at h with hspace hkept
  · exact .inr (.inr (.inr (List.mem_singleton.1 h)))
  · obtain rfl := List.mem_singleton.1 h
    exact .inl hkept
  · simp only [List.mem_cons, List.not_mem_nil, or_false] at h
    rcases h with rfl | rfl | rfl
    · exact .inr (.inr (.inl rfl))
    · exact .inr (.inl (isAlphanum_hexDigit (by omega)))
    · exact .inr (.inl (isAlphanum_hexDigit (by omega)))

/-- What is written does not end the part of the URL that it is written into. -/
theorem ne_of_mem_encode {s : String} {c d : Char} (hc : c ∈ (e.encode s).toList)
    (hd : d ∈ ['/', '?', '#', '&', '=']) : c ≠ d := by
  rw [encode, String.toList_ofList] at hc
  obtain ⟨b, -, hb⟩ := List.mem_flatMap.1 hc
  rintro rfl
  rcases mem_encodeByte hb with h | h | rfl | rfl
  · exact ne_of_kept (List.mem_of_mem_drop (i := 2) hd) h rfl
  · have hall : ['/', '?', '#', '&', '='].all (!Char.isAlphanum ·) = true := by decide
    have hc := List.all_eq_true.1 hall c hd
    rw [h] at hc
    cases hc
  · exact absurd hd (by decide)
  · exact absurd hd (by decide)

theorem param_inj {key s t : String} (h : e.param key s = e.param key t) : s = t := by
  have hlist := congrArg String.toList h
  simp only [param, String.toList_append] at hlist
  exact encode_inj (String.toList_inj.1 (List.append_cancel_left hlist))

end Encoding

example : Encoding.component.encode "a/b? 회의" = "a%2Fb%3F%20%ED%9A%8C%EC%9D%98" := by
  decide +kernel

/-! ### Paths -/

/-- The path with these segments. -/
def joinSegments (segments : List String) : List Char :=
  segments.flatMap fun segment => '/' :: segment.toList

/-- The text can be a segment. -/
def Segment (s : String) : Prop := '/' ∉ s.toList

instance (s : String) : Decidable (Segment s) := inferInstanceAs (Decidable ('/' ∉ s.toList))

theorem Segment.ne {s : String} (h : Segment s) : ∀ c ∈ s.toList, (c ≠ '/' : Bool) = true := by
  intro c hc
  simpa using ne_of_mem_of_not_mem hc h

/-- Where the characters with a property end is where the rest begins. -/
theorem append_inj_of_takeWhile {p : Char → Bool} {s t r r' : List Char}
    (hs : ∀ c ∈ s, p c = true) (ht : ∀ c ∈ t, p c = true) (hr : r.takeWhile p = [])
    (hr' : r'.takeWhile p = []) (h : s ++ r = t ++ r') : s = t ∧ r = r' := by
  have htake := congrArg (List.takeWhile p) h
  rw [List.takeWhile_append_of_pos hs, List.takeWhile_append_of_pos ht, hr, hr', List.append_nil,
    List.append_nil] at htake
  subst htake
  exact ⟨rfl, List.append_cancel_left h⟩

theorem takeWhile_joinSegments (segments : List String) :
    (joinSegments segments).takeWhile (· ≠ '/') = [] := by
  cases segments with
  | nil => rfl
  | cons s ss => simp [joinSegments]

/-- **A path has one list of segments.** -/
theorem joinSegments_inj {ss ts : List String} (hs : ∀ s ∈ ss, Segment s)
    (ht : ∀ t ∈ ts, Segment t) (h : joinSegments ss = joinSegments ts) : ss = ts := by
  induction ss generalizing ts with
  | nil =>
    cases ts with
    | nil => rfl
    | cons t ts => simp [joinSegments] at h
  | cons s ss ih =>
    cases ts with
    | nil => simp [joinSegments] at h
    | cons t ts =>
      simp only [joinSegments, List.flatMap_cons, List.cons_append, List.cons.injEq,
        true_and] at h
      simp only [List.mem_cons, forall_eq_or_imp] at hs ht
      obtain ⟨he, hrest⟩ := append_inj_of_takeWhile (p := (· ≠ '/')) hs.1.ne ht.1.ne
        (takeWhile_joinSegments ss) (takeWhile_joinSegments ts) h
      rw [String.toList_inj.1 he, ih hs.2 ht.2 hrest]

end Uri

end FCord
