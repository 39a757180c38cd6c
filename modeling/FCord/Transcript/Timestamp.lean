import FCord.Transcript.Api
import Mathlib.Tactic.FieldSimp
import Mathlib.Tactic.Linarith
import Mathlib.Tactic.NormNum

/-!
# Timestamps

The server marks the beginning and the end of a segment with timestamps such as `00:01:02.50`.
`timeToMs` reads them exactly, up to the rounding of the fraction, which may carry into the next
second; it keeps their order, and `formatMs` shows the minute and the second of a timestamp of the
server (`timestamps_decode`).
-/

namespace FCord

/-! ### The screen -/

/-- `text.padStart(n, '0')` -/
def padStart (n : ℕ) (text : String) : String :=
  String.ofList (List.replicate (n - text.length) '0') ++ text

/-- `formatMs`: minutes and seconds. -/
def formatMs (ms : ℚ) : String :=
  let s := ⌊ms / 1000⌋
  padStart 2 (toString (s / 60)) ++ ":" ++ padStart 2 (toString (s.tmod 60))

example : formatMs 3723450 = "62:03" := by decide +kernel

/-! ### The server -/

/-- A text of decimal digits. -/
structure Digits where
  chars : List Char
  isDigit : ∀ c ∈ chars, c.isDigit = true

namespace Digits

/-- The number that the digits write. -/
def value (ds : Digits) : ℕ := Nat.ofDigitChars 10 ds.chars 0

/-- The number that the digits write behind a point. -/
def fraction (ds : Digits) : ℚ := ds.value / 10 ^ ds.chars.length

/-- No digit is a separator. -/
theorem not_mem (ds : Digits) {c : Char} (hc : c.isDigit = false) : c ∉ ds.chars := by
  intro hm
  rw [ds.isDigit c hm] at hc
  cases hc

end Digits

/-- A timestamp of the server. -/
structure Timestamp where
  hours : Digits
  minutes : Digits
  seconds : Digits
  /-- The digits behind the point, if there is one. -/
  fraction : Option Digits
  minutes_lt : minutes.value < 60
  seconds_lt : seconds.value < 60

namespace Timestamp

variable (t : Timestamp)

/-- `H:MM:SS` -/
def hms : List Char := List.intercalate [':'] [t.hours.chars, t.minutes.chars, t.seconds.chars]

/-- `H:MM:SS` or `H:MM:SS.ss` -/
def text : String :=
  String.ofList (List.intercalate ['.'] (t.hms :: t.fraction.toList.map Digits.chars))

/-- The whole seconds. -/
def wholeSeconds : ℕ := 3600 * t.hours.value + 60 * t.minutes.value + t.seconds.value

/-- The fraction of a second. -/
def fractionOfSecond : ℚ := (t.fraction.map Digits.fraction).getD 0

/-- The instant, in seconds. -/
def time : ℚ := t.wholeSeconds + t.fractionOfSecond

/-- The instant in milliseconds, its fraction of a second rounded half up. -/
def ms : ℤ := 1000 * t.wholeSeconds + ⌊1000 * t.fractionOfSecond + 1 / 2⌋

variable {t}

theorem splitText_hms : splitText ':' (String.ofList t.hms) =
    [String.ofList t.hours.chars, String.ofList t.minutes.chars,
      String.ofList t.seconds.chars] := by
  have hno : ∀ l ∈ [t.hours.chars, t.minutes.chars, t.seconds.chars], ':' ∉ l := by
    simp [Digits.not_mem]
  rw [splitText, String.toList_ofList, hms, List.splitOn_intercalate _ hno (List.cons_ne_nil _ _)]
  rfl

theorem splitText_text : splitText '.' t.text =
    String.ofList t.hms :: t.fraction.toList.map fun ds => String.ofList ds.chars := by
  have hno : ∀ l ∈ t.hms :: t.fraction.toList.map Digits.chars, '.' ∉ l := by
    intro l hl
    rcases List.mem_cons.1 hl with rfl | hl
    · simp [hms, List.intercalate, Digits.not_mem]
    · obtain ⟨ds, -, rfl⟩ := List.mem_map.1 hl
      exact ds.not_mem rfl
  rw [splitText, text, String.toList_ofList,
    List.splitOn_intercalate _ hno (List.cons_ne_nil _ _), List.map_cons, List.map_map]
  rfl

theorem numberOf_digits (ds : Digits) : numberOf (String.ofList ds.chars) = some ds.value :=
  Number.ofString_digits ds.isDigit

/-- Without a fraction `timeToMs` reads the default. -/
theorem numberOf_fraction : numberOf ("0." ++ (t.fraction.toList.map fun ds =>
    String.ofList ds.chars)[0]?.getD "0") = some t.fractionOfSecond := by
  cases hf : t.fraction with
  | none =>
    have hzero : numberOf ("0." ++ "0") = some 0 := by decide +kernel
    simpa [fractionOfSecond, hf] using hzero
  | some ds =>
    have hdigits : numberOf ("0." ++ String.ofList ds.chars) = some ds.fraction :=
      Number.ofString_fraction ds.isDigit
    simpa [fractionOfSecond, hf] using hdigits

/-- **`timeToMs` reads a timestamp exactly.** -/
theorem timeToMs_text : timeToMs t.text = some (t.ms : ℚ) := by
  have hfraction := numberOf_fraction (t := t)
  simp only [timeToMs, splitText_text, splitText_hms, List.headD_cons, List.getElem?_cons_succ,
    List.map_cons, List.map_nil, numberOf_digits, hfraction]
  simp only [List.getElem?_cons_zero, Option.join_some, Option.bind_eq_bind, Option.bind_some,
    Option.pure_def, Option.some.injEq, ms, mathRound, wholeSeconds]
  push_cast
  ring_nf

/-- A timestamp in milliseconds is its instant rounded half up. -/
theorem ms_eq_floor : t.ms = ⌊1000 * t.time + 1 / 2⌋ := by
  have hsplit : 1000 * t.time + 1 / 2 =
      ((1000 * t.wholeSeconds : ℤ) : ℚ) + (1000 * t.fractionOfSecond + 1 / 2) := by
    rw [time]
    push_cast
    ring
  rw [hsplit, Int.floor_intCast_add, ms]

/-- **The order is kept**, also where a fraction carries into the next second. -/
theorem ms_mono {t' : Timestamp} (h : t.time ≤ t'.time) : t.ms ≤ t'.ms := by
  rw [ms_eq_floor, ms_eq_floor]
  refine Int.floor_mono ?_
  linarith

/-- A fraction of at most three digits is a number of milliseconds. -/
theorem ms_of_short {ds : Digits} (hf : t.fraction = some ds) (hlen : ds.chars.length ≤ 3) :
    ∃ n < 1000, t.ms = 1000 * t.wholeSeconds + (n : ℕ) := by
  obtain ⟨k, hk⟩ := Nat.exists_eq_add_of_le hlen
  have hpow : 10 ^ ds.chars.length * 10 ^ k = 1000 := by rw [← pow_add, ← hk]; rfl
  refine ⟨ds.value * 10 ^ k, ?_, ?_⟩
  · rw [← hpow]
    exact Nat.mul_lt_mul_of_pos_right (Number.ofDigitChars_lt ds.isDigit) (Nat.pow_pos (by decide))
  · have hpow : (1000 : ℚ) = 10 ^ ds.chars.length * 10 ^ k := by exact_mod_cast hpow.symm
    have hfraction : 1000 * t.fractionOfSecond = ((ds.value * 10 ^ k : ℕ) : ℚ) := by
      rw [fractionOfSecond, hf, Option.map_some, Option.getD_some, Digits.fraction, hpow]
      field_simp
      push_cast
      ring
    have hhalf : ⌊(1 / 2 : ℚ)⌋ = 0 := by decide +kernel
    rw [ms, hfraction, Int.floor_natCast_add, hhalf, add_zero]

/-- The display cuts the milliseconds off. -/
theorem formatMs_eq {h m s n : ℕ} (hs : s < 60) (hn : n < 1000) :
    formatMs ((1000 * (3600 * h + 60 * m + s : ℕ) + n : ℤ) : ℚ) =
      padStart 2 (toString (60 * h + m)) ++ ":" ++ padStart 2 (toString s) := by
  have hfloor : ⌊((1000 * (3600 * h + 60 * m + s : ℕ) + n : ℤ) : ℚ) / 1000⌋ =
      (3600 * h + 60 * m + s : ℕ) := by
    have hdiv := Rat.floor_intCast_div_natCast (1000 * (3600 * h + 60 * m + s : ℕ) + n) 1000
    rw [Nat.cast_ofNat] at hdiv
    rw [hdiv]
    omega
  have hminute : ((3600 * h + 60 * m + s : ℕ) : ℤ) / 60 = (60 * h + m : ℕ) := by omega
  have hsecond : ((3600 * h + 60 * m + s : ℕ) : ℤ).tmod 60 = s := by
    rw [Int.tmod_eq_emod_of_nonneg (Int.natCast_nonneg _)]
    omega
  rw [formatMs, hfloor, hminute, hsecond]
  rfl

/-- **Timestamps are decoded exactly and in order.**  `timeToMs` gives the whole seconds in
milliseconds and the fraction of a second rounded half up; a segment that does not begin after it
ends on the server does not in the app; and for a timestamp with two digits behind the point the
screen shows its minute and its second. -/
theorem timestamps_decode (t t' : Timestamp) :
    timeToMs t.text = some ((1000 * (3600 * t.hours.value + 60 * t.minutes.value +
        t.seconds.value) + ⌊1000 * t.fractionOfSecond + 1 / 2⌋ : ℤ) : ℚ) ∧
      (t.time ≤ t'.time → ∀ (raw : List FaicordTranscriptSegment) (i : ℕ) (server seg),
        raw[i]? = some server → server.start = t.text → server.end_ = t'.text →
        (getTranscript (some raw))[i]? = some seg →
        ∃ a b, seg.startMs = some a ∧ seg.endMs = some b ∧ a ≤ b) ∧
      ∀ ds, t.fraction = some ds → ds.chars.length = 2 →
        (timeToMs t.text).map formatMs =
          some (padStart 2 (toString (60 * t.hours.value + t.minutes.value)) ++ ":" ++
            padStart 2 (toString t.seconds.value)) := by
  refine ⟨?_, fun hle raw i server seg hserver hstart hend hseg => ?_, fun ds hf hlen => ?_⟩
  · rw [timeToMs_text, ms, wholeSeconds]
    push_cast
    rfl
  · rw [getTranscript, Option.getD_some, List.getElem?_map, hserver] at hseg
    cases hseg
    refine ⟨t.ms, t'.ms, ?_, ?_, Int.cast_le.2 (ms_mono hle)⟩
    · exact (congrArg timeToMs hstart).trans timeToMs_text
    · exact (congrArg timeToMs hend).trans timeToMs_text
  · obtain ⟨n, hn, hms⟩ := ms_of_short hf (by omega)
    rw [timeToMs_text, hms, Option.map_some, wholeSeconds]
    exact congrArg some (formatMs_eq t.seconds_lt hn)

end Timestamp

end FCord
