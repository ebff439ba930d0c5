import Ticketing.Lib.Datetime
import Mathlib.Data.List.GetD
import Mathlib.Tactic.Linarith

/-!
# `datetime.fromisoformat` reads what `isoformat` writes

The readers of `fromisoformat` have one lemma each for the text of their field, whatever follows
it (`parseDigits_numeral`, `parseDate_chars`, `parseClock_chars`, `parseOffset_chars`).

Results:
* `ofDays_spec`: the date of a day is a valid one, and its day is that day, up to the end of the
  year 9999 (`maxDays`).
* `parseTime_chars`: a time of day is read back from its text with the offset after it, the
  fraction of a second and the seconds of the offset included.
* `fromisoformat_isoformat`: an aware `datetime` of a year up to 9999, at any offset of less than
  a day, comes back as it was (`Stamp.Valid`).
-/

namespace Ticketing.Lib.Datetime

open Text (numeral digitValue value)

/-! ## Calendar days -/

/-- The first day after the year 9999. -/
def maxDays : Nat := 3652059

theorem monthDay_spec (leap : Bool) {n : Nat} (h : n < 365 + if leap then 1 else 0) :
    (1 ≤ (monthDay leap n).1 ∧ (monthDay leap n).1 ≤ 12) ∧ 1 ≤ (monthDay leap n).2 ∧
      (monthDay leap n).2 ≤ daysInMonth leap (monthDay leap n).1 ∧
      daysBeforeMonth leap (monthDay leap n).1 + ((monthDay leap n).2 - 1) = n := by
  have hall : ∀ leap : Bool, ∀ n < 366, n < 365 + (if leap then 1 else 0) →
      (1 ≤ (monthDay leap n).1 ∧ (monthDay leap n).1 ≤ 12) ∧ 1 ≤ (monthDay leap n).2 ∧
        (monthDay leap n).2 ≤ daysInMonth leap (monthDay leap n).1 ∧
        daysBeforeMonth leap (monthDay leap n).1 + ((monthDay leap n).2 - 1) = n := by
    decide +kernel
  exact hall leap n (by split at h <;> omega) h

/-- The years before a date, by centuries and cycles of four. -/
theorem leapDays (a b c d : Nat) (hb : b < 4) (hc : c < 25) (hd : d < 4) :
    let y := a * 400 + b * 100 + c * 4 + d
    y * 365 + y / 4 - y / 100 + y / 400 = a * 146097 + b * 36524 + c * 1461 + d * 365 ∧
      isLeap (y + 1) = (d = 3 && (c ≠ 24 || b = 3)) := by
  refine ⟨by omega, ?_⟩
  rw [Bool.eq_iff_iff]
  simp only [isLeap, Bool.and_eq_true, Bool.or_eq_true, decide_eq_true_eq]
  omega

/-- A day of the calendar is the day of its date. -/
theorem ofDays_spec {n : Nat} (h : n < maxDays) : (ofDays n).Valid ∧ (ofDays n).toDays = n := by
  replace h : n < 3652059 := h
  unfold ofDays
  dsimp only
  generalize ha : n / 146097 = a
  generalize hr : n % 146097 = r
  generalize hb : r / 36524 = b
  generalize hr2 : r % 36524 = r2
  generalize hc : r2 / 1461 = c
  generalize hr3 : r2 % 1461 = r3
  generalize hd : r3 / 365 = d
  generalize hr4 : r3 % 365 = r4
  have hn : n = a * 146097 + b * 36524 + c * 1461 + d * 365 + r4 := by omega
  split_ifs with hlast
  · -- the last day of four years, or of four centuries
    obtain ⟨b', c', hb', hc', hl, hyear, hdays⟩ : ∃ b' c', b' < 4 ∧ c' < 25 ∧ (c' ≠ 24 ∨ b' = 3) ∧
        a * 400 + b * 100 + c * 4 + d = a * 400 + b' * 100 + c' * 4 + 3 + 1 ∧
        b * 36524 + c * 1461 + d * 365 + r4 = b' * 36524 + c' * 1461 + 1460 := by
      clear ha h hn
      rcases hlast with rfl | rfl
      · exact ⟨b, c, by omega, by omega, by omega, by omega, by omega⟩
      · have h0 : c = 0 ∧ d = 0 ∧ r4 = 0 := by omega
        exact ⟨3, 24, by omega, by omega, by omega, by omega, by omega⟩
    obtain ⟨hy, hleap⟩ := leapDays a b' c' 3 hb' hc' (by omega)
    have hleap : isLeap (a * 400 + b * 100 + c * 4 + d) = true := by
      rw [hyear, hleap]
      simpa using hl
    rw [Nat.add_sub_cancel]
    have hlow : 1 ≤ a * 400 + b * 100 + c * 4 + d := by omega
    have hhigh : a * 400 + b * 100 + c * 4 + d ≤ 9999 := by omega
    refine ⟨⟨hlow, hhigh, Nat.le_add_left 1 11, le_refl 12, Nat.le_add_left 1 30, ?_⟩, ?_⟩
    · rw [hleap]
      exact (by decide : 31 ≤ daysInMonth true 12)
    · have hbefore : daysBeforeMonth true 12 = 335 := rfl
      rw [Date.toDays, hleap, hbefore, hyear, Nat.add_sub_cancel, hy]
      dsimp only
      linarith
  · obtain ⟨hdays, hleap⟩ := leapDays a b c d (by omega) (by omega) (by omega)
    rw [← hleap]
    have hspec := monthDay_spec (isLeap (a * 400 + b * 100 + c * 4 + d + 1)) (n := r4)
      (by split <;> omega)
    obtain ⟨⟨h1, h2⟩, h3, h4, h5⟩ := hspec
    refine ⟨⟨by simp, by simp; omega, h1, h2, h3, h4⟩, ?_⟩
    simp only [Date.toDays, Nat.add_sub_cancel]
    omega

/-! ## Fields -/

theorem parseDigits_add (k l acc : Nat) (cs : List Char) : parseDigits (k + l) acc cs =
    (parseDigits k acc cs).bind fun p => parseDigits l p.1 p.2 := by
  induction k generalizing acc cs with
  | zero => rw [Nat.zero_add]; rfl
  | succ k ih =>
    rw [Nat.succ_add]
    cases cs with
    | nil => rfl
    | cons c cs =>
      cases hd : digitValue 10 c with
      | none => simp only [parseDigits, hd, Option.bind_none]
      | some d => simp only [parseDigits, hd, Option.bind_some, ih]

/-- A numeral of the right length is read, whatever follows. -/
theorem parseDigits_numeral (w n acc : Nat) (rest : List Char) :
    parseDigits w acc (numeral 10 w n ++ rest) = some (acc * 10 ^ w + n % 10 ^ w, rest) := by
  induction w generalizing n rest with
  | zero => simp [numeral, parseDigits, Nat.mod_one]
  | succ w ih =>
    have hd := Text.digitValue_digitChar (b := 10) (by decide) (Nat.mod_lt n (by decide))
    rw [numeral, List.append_assoc, parseDigits_add, ih]
    simp only [Option.bind_some, List.singleton_append, parseDigits, hd]
    have hn : n % 10 ^ (w + 1) = 10 * (n / 10 % 10 ^ w) + n % 10 := by
      rw [pow_succ', Nat.mod_mul, Nat.add_comm]
    rw [hn]
    congr 2
    ring

theorem parseDigits_of_lt {w n : Nat} (h : n < 10 ^ w) (rest : List Char) :
    parseDigits w 0 (numeral 10 w n ++ rest) = some (n, rest) := by
  rw [parseDigits_numeral, Nat.mod_eq_of_lt h, Nat.zero_mul, Nat.zero_add]

/-- What follows in a numeral is neither a letter nor a mark. -/
theorem numeral_ne {w n : Nat} {c x : Char} (hc : c ∈ numeral 10 w n)
    (hx : x ∉ "0123456789abcdef".toList) : c ≠ x := fun h =>
  hx (h ▸ Text.mem_numeral (by decide) (by decide) hc)

theorem head_numeral_ne {w n : Nat} {x : Char} {rest : List Char}
    (hx : x ∉ "0123456789abcdef".toList) :
    ((numeral 10 (w + 1) n ++ rest).head? = some x) = False := by
  refine eq_false fun h => ?_
  cases hc : numeral 10 (w + 1) n with
  | nil => exact absurd (congrArg List.length hc) (by simp)
  | cons c cs =>
    rw [hc] at h
    exact numeral_ne (hc ▸ List.mem_cons_self) hx (Option.some.inj h)

theorem parseDate_chars {d : Date} (hy : d.year < 10 ^ 4) (hm : d.month < 10 ^ 2)
    (hd : d.day < 10 ^ 2) : parseDate d.chars = some d := by
  have hday := parseDigits_of_lt hd []
  rw [List.append_nil] at hday
  have hW : ((numeral 10 2 d.month ++ '-' :: numeral 10 2 d.day).head? = some 'W') = False :=
    head_numeral_ne (by decide)
  rw [parseDate, Date.chars, List.append_assoc, List.cons_append, parseDigits_of_lt hy]
  simp only [Option.bind_some, List.head?_cons, decide_true, parseSeparator, if_true,
    List.tail_cons, hW, if_false, parseDigits_of_lt hm, hday, Option.map_some]

/-! ## Times -/

theorem isDigit_numeral {w n : Nat} : (numeral 10 w n).all isDigit = true := by
  induction w generalizing n with
  | zero => rfl
  | succ w ih =>
    rw [numeral, List.all_append, ih, List.all_cons, isDigit,
      Text.digitValue_digitChar (by decide) (Nat.mod_lt n (by decide))]
    rfl

/-- The microseconds after a clock, where there are any. -/
def fractionChars (us : Nat) : List Char := if us = 0 then [] else '.' :: numeral 10 6 us

theorem parseFraction_chars {us : Nat} (h : us < 10 ^ 6) :
    parseFraction (fractionChars us) = some us := by
  unfold fractionChars
  split
  · subst us; rfl
  · have hne : numeral 10 6 us ≠ [] := fun h => absurd (congrArg List.length h) (by simp)
    have htake : (numeral 10 6 us).take 6 = numeral 10 6 us := List.take_of_length_le (by simp)
    rw [parseFraction, if_pos ⟨.inl rfl, hne, isDigit_numeral⟩, htake,
      Text.value_numeral (by decide) (by decide) h]
    simp

/-- `HH:MM:SS`, and the microseconds. -/
theorem parseClock_chars {h m s us : Nat} (hh : h < 10 ^ 2) (hm : m < 10 ^ 2) (hs : s < 10 ^ 2)
    (hus : us < 10 ^ 6) :
    parseClock (numeral 10 2 h ++ ':' :: (numeral 10 2 m ++ ':' :: (numeral 10 2 s ++
      fractionChars us))) = some ⟨h, m, s, us⟩ := by
  rw [parseClock, parseDigits_of_lt hh]
  simp only [Option.bind_some, List.head?_cons, decide_true, reduceCtorEq, if_false, parseSeparator,
    if_true, List.tail_cons, parseDigits_of_lt hm, parseDigits_of_lt hs, parseFraction_chars hus,
    Option.map_some]

/-- `HH:MM`. -/
theorem parseClock_minutes {h m : Nat} (hh : h < 10 ^ 2) (hm : m < 10 ^ 2) :
    parseClock (numeral 10 2 h ++ ':' :: numeral 10 2 m) = some ⟨h, m, 0, 0⟩ := by
  have hmin := parseDigits_of_lt hm []
  rw [List.append_nil] at hmin
  rw [parseClock, parseDigits_of_lt hh]
  simp only [Option.bind_some, List.head?_cons, decide_true, reduceCtorEq, if_false, parseSeparator,
    if_true, List.tail_cons, hmin]

/-- The clock of an offset, without its sign. -/
theorem parseClock_offset {us : Nat} (h : us < 86400000000) :
    ∃ clock : Clock, clock.micros = us ∧
      parseClock (numeral 10 2 (us / 3600000000) ++ ':' :: (numeral 10 2 (us / 60000000 % 60) ++
        ((if us % 60000000 = 0 then [] else ':' :: numeral 10 2 (us / 1000000 % 60)) ++
          fractionChars (us % 1000000)))) = some clock := by
  have hh : us / 3600000000 < 10 ^ 2 := by omega
  have hm : us / 60000000 % 60 < 10 ^ 2 := by omega
  have hs : us / 1000000 % 60 < 10 ^ 2 := by omega
  by_cases hsec : us % 60000000 = 0
  · refine ⟨⟨us / 3600000000, us / 60000000 % 60, 0, 0⟩, ?_, ?_⟩
    · simp only [Clock.micros]
      omega
    · rw [if_pos hsec, fractionChars, if_pos (by omega), List.append_nil, List.append_nil]
      exact parseClock_minutes hh hm
  · refine ⟨⟨us / 3600000000, us / 60000000 % 60, us / 1000000 % 60, us % 1000000⟩, ?_, ?_⟩
    · simp only [Clock.micros]
      omega
    · rw [if_neg hsec, List.cons_append]
      exact parseClock_chars hh hm hs (by omega)

theorem offsetChars_eq (offset : Int) : offsetChars offset =
    (if offset < 0 then '-' else '+') :: (numeral 10 2 (offset.natAbs / 3600000000) ++
      ':' :: (numeral 10 2 (offset.natAbs / 60000000 % 60) ++
        ((if offset.natAbs % 60000000 = 0 then []
          else ':' :: numeral 10 2 (offset.natAbs / 1000000 % 60)) ++
            fractionChars (offset.natAbs % 1000000)))) := by
  simp [offsetChars, fractionChars]

theorem parseOffset_cons {c : Char} (hc : c ≠ 'Z') {cs : List Char} {clock : Clock}
    (hclock : parseClock cs = some clock) (h : clock.micros < 86400000000) :
    parseOffset (c :: cs) =
      some (some (if c = '-' then -(clock.micros : Int) else clock.micros)) := by
  rw [parseOffset, if_neg hc, hclock, Option.bind_some, if_pos h]

/-- An offset of less than a day is read from what is written of it. -/
theorem parseOffset_chars {offset : Int} (h : offset.natAbs < 86400000000) :
    parseOffset (offsetChars offset) = some (some offset) := by
  obtain ⟨clock, hmicros, hclock⟩ := parseClock_offset h
  have hsign : (if offset < 0 then '-' else '+') ≠ 'Z' := by split <;> decide
  rw [offsetChars_eq, parseOffset_cons hsign hclock (hmicros ▸ h), hmicros]
  by_cases hneg : offset < 0
  · rw [if_pos hneg, if_pos rfl, Int.ofNat_natAbs_of_nonpos hneg.le, Int.neg_neg]
  · rw [if_neg hneg, if_neg (by decide), Int.natAbs_of_nonneg (not_lt.mp hneg)]

theorem timeChars_eq (t : Nat) : timeChars t =
    numeral 10 2 (t / 1000000 / 3600) ++ ':' :: (numeral 10 2 (t / 1000000 / 60 % 60) ++
      ':' :: (numeral 10 2 (t / 1000000 % 60) ++ fractionChars (t % 1000000))) := by
  simp [timeChars, fractionChars]

/-- The characters of a time come before its offset. -/
theorem mem_timeChars {t : Nat} {c : Char} (h : c ∈ timeChars t) :
    (c ≠ '+' && c ≠ '-' && c ≠ 'Z') = true := by
  have digit {w n : Nat} (hc : c ∈ numeral 10 w n) : (c ≠ '+' && c ≠ '-' && c ≠ 'Z') = true := by
    simp [numeral_ne hc (x := '+') (by decide), numeral_ne hc (x := '-') (by decide),
      numeral_ne hc (x := 'Z') (by decide)]
  rw [timeChars_eq] at h
  rcases List.mem_append.mp h with h | h
  · exact digit h
  rcases List.mem_cons.mp h with rfl | h
  · decide
  rcases List.mem_append.mp h with h | h
  · exact digit h
  rcases List.mem_cons.mp h with rfl | h
  · decide
  rcases List.mem_append.mp h with h | h
  · exact digit h
  unfold fractionChars at h
  split at h
  · cases h
  · rcases List.mem_cons.mp h with rfl | h
    · decide
    · exact digit h

theorem parseTime_chars {t : Nat} (ht : t < 86400000000) {offset : Int}
    (h : offset.natAbs < 86400000000) :
    parseTime (timeChars t ++ offsetChars offset) = some (t, some offset) := by
  have htake : (timeChars t ++ offsetChars offset).takeWhile
      (fun c => c ≠ '+' && c ≠ '-' && c ≠ 'Z') = timeChars t := by
    rw [List.takeWhile_append_of_pos fun c hc => mem_timeChars hc, offsetChars_eq,
      List.takeWhile_cons_of_neg, List.append_nil]
    split <;> decide
  have hclock := @parseClock_chars (t / 1000000 / 3600) (t / 1000000 / 60 % 60) (t / 1000000 % 60)
    (t % 1000000) (by omega) (by omega) (by omega) (by omega)
  rw [← timeChars_eq] at hclock
  rw [parseTime, htake, hclock, List.drop_left, Option.bind_some, parseOffset_chars h,
    Option.bind_some, if_pos ⟨by dsimp only; omega, by dsimp only; omega, by dsimp only; omega⟩]
  simp only [Clock.micros]
  congr 2
  omega

/-! ## Whole texts -/

/-- The stamps that are a `datetime`: the year is at most 9999, the offset less than a day. -/
def Stamp.Valid (d : Stamp) : Prop :=
  d.micros < maxDays * 86400000000 ∧ ∀ offset ∈ d.utcoffset, offset.natAbs < 86400000000

theorem length_chars (d : Date) : d.chars.length = 10 := by simp [Date.chars]

/-- The date of a text ends with its tenth character. -/
theorem findSeparator_chars (d : Date) (rest : List Char) :
    findSeparator (d.chars ++ 'T' :: rest) = some 10 := by
  have hlength : (d.chars ++ 'T' :: rest).length ≠ 7 := by
    rw [List.length_append, length_chars]
    omega
  have hchars : d.chars ++ 'T' :: rest = numeral 10 4 d.year ++ '-' :: (numeral 10 2 d.month ++
      '-' :: (numeral 10 2 d.day ++ 'T' :: rest)) := by
    simp [Date.chars]
  have h4 : (d.chars ++ 'T' :: rest).getD 4 ' ' = '-' := by
    rw [hchars, List.getD_append_right _ _ _ _ (by simp)]
    simp
  have h5 : (d.chars ++ 'T' :: rest).getD 5 ' ' ≠ 'W' := by
    rw [hchars, List.getD_append_right _ _ _ _ (by simp), Text.length_numeral, List.getD_cons_succ,
      List.getD_eq_getElem?_getD, ← List.head?_eq_getElem?]
    cases hc : (numeral 10 2 d.month ++ '-' :: (numeral 10 2 d.day ++ 'T' :: rest)).head? with
    | none => decide
    | some c =>
      rintro rfl
      exact (head_numeral_ne (by decide)).mp hc
  simp only [findSeparator, hlength, h4, h5, if_false, if_true]

theorem daysInMonth_lt (leap : Bool) {month : Nat} (h : month ≤ 12) :
    daysInMonth leap month < 10 ^ 2 := by
  have hall : ∀ leap : Bool, ∀ month < 13, daysInMonth leap month < 10 ^ 2 := by decide
  exact hall leap month (Nat.lt_succ_of_le h)

theorem parseDate_ofDays {n : Nat} (h : n < maxDays) :
    parseDate (ofDays n).chars = some (ofDays n) := by
  obtain ⟨-, hy, -, hm, -, hd⟩ := (ofDays_spec h).1
  exact parseDate_chars (by omega) (by omega) (lt_of_le_of_lt hd (daysInMonth_lt _ hm))

/-- **An aware `datetime` is read from what is written of it.** -/
theorem fromisoformat_isoformat {d : Stamp} (h : d.Valid) {offset : Int}
    (ho : d.utcoffset = some offset) : fromisoformat d.isoformat = some d := by
  obtain ⟨micros, utcoffset⟩ := d
  obtain rfl : utcoffset = some offset := ho
  have ht : micros % 86400000000 < 86400000000 := Nat.mod_lt _ (by decide)
  have hdays : micros / 86400000000 < maxDays :=
    Nat.div_lt_of_lt_mul (by rw [Nat.mul_comm]; exact h.1)
  have htime := parseTime_chars ht (h.2 offset rfl)
  have hjoin : micros / 86400000000 * 86400000000 + micros % 86400000000 = micros :=
    Nat.div_add_mod' ..
  obtain ⟨hvalid, htoDays⟩ := ofDays_spec hdays
  have hdate := parseDate_ofDays hdays
  generalize hday : ofDays (micros / 86400000000) = day at hvalid htoDays hdate
  have htext : (Stamp.isoformat ⟨micros, some offset⟩).toList = day.chars ++
      'T' :: (timeChars (micros % 86400000000) ++ offsetChars offset) := by
    rw [← hday]
    simp [Stamp.isoformat]
  generalize micros % 86400000000 = time at htime hjoin htext
  generalize micros / 86400000000 = days at htoDays hjoin
  generalize hcs : (Stamp.isoformat ⟨micros, some offset⟩).toList = cs at htext
  have hmore : 10 < cs.length := by
    rw [htext, List.length_append, length_chars, List.length_cons]
    omega
  have htake : cs.take 10 = day.chars := by
    rw [htext, List.take_append_of_le_length (by rw [length_chars]),
      List.take_of_length_le (by rw [length_chars])]
  have hdrop : cs.drop (10 + 1) = timeChars time ++ offsetChars offset := by
    rw [htext, List.drop_append, length_chars, List.drop_of_length_le (by rw [length_chars]; omega)]
    rfl
  have hsep : findSeparator cs = some 10 := by rw [htext, findSeparator_chars]
  rw [fromisoformat, hcs]
  simp only [hsep, Option.bind_some, htake, hdate, hdrop, htime, if_pos hvalid, htoDays, hjoin,
    if_neg (show ¬cs.length < 7 by omega), if_neg (show cs.length ≠ 10 by omega)]

end Ticketing.Lib.Datetime
