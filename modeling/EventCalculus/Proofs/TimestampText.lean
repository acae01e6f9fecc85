import EventCalculus.Engine.Basic
import EventCalculus.Proofs.NumeralText
import EventCalculus.Proofs.Outcomes

/-!
# Texts of timestamps

A timestamp is the text of an instant, and reading it gives this instant again.
So a timestamp is in normal form: taken as a moment, it is its own timestamp.
-/

namespace EventCalculus

/-- The date and the time of day exist. -/
def Instant.IsReal (i : Instant) : Prop :=
  i.date.isValid = true ∧ i.isTimeOfDay = true

/-- The moment is a text, or a date or time that exists. -/
def Moment.IsReal : Moment -> Prop
  | .text _ => True
  | .date day => day.isValid = true
  | .instant i _ => i.IsReal
  | .other _ => True

/-!
# Padded digits
-/

theorem allDigits_paddedDigits (width n : Nat) : AllDigits (paddedDigits width n) :=
  (AllDigits.zeros _).append (AllDigits.toDigits n)

theorem length_paddedDigits {w n : Nat} (hpos : 0 < w) (h : n < 10 ^ w) :
    (paddedDigits w n).length = w := by
  have hdigits := (Nat.length_toDigits_le_iff (b := 10) (by decide) hpos).mpr h
  rw [paddedDigits, List.length_append, List.length_replicate]
  omega

theorem digitsValue_paddedDigits (width n : Nat) :
    Text.digitsValue (paddedDigits width n) = n := by
  rw [digitsValue_eq_ofDigitChars (allDigits_paddedDigits width n), paddedDigits,
    Nat.ofDigitChars_append]
  simp

/-!
# Dates
-/

namespace CalendarDate

variable {d : CalendarDate}

theorem number_bounds (h : d.isValid = true) :
    d.year < 10 ^ 4 ∧ d.month < 10 ^ 2 ∧ d.day < 10 ^ 2 := by
  simp only [isValid, Bool.and_eq_true, decide_eq_true_eq] at h
  have hdays : daysInMonth d.year d.month ≤ 31 := by
    unfold daysInMonth
    split
    · split
      · decide
      · decide
    · split
      · decide
      · decide
  omega

theorem check_of_isValid (h : d.isValid = true) : d.check = .ok d := by
  simp only [isValid, Bool.and_eq_true, decide_eq_true_eq] at h
  unfold check
  rw [if_neg, if_neg, if_neg]
  · simp only [Bool.or_eq_true, decide_eq_true_eq]
    omega
  · simp only [Bool.or_eq_true, decide_eq_true_eq]
    omega
  · simp only [Bool.or_eq_true, decide_eq_true_eq]
    omega

theorem eq_of_check {day : CalendarDate} (h : d.check = .ok day) : d = day := by
  unfold check at h
  split at h
  · cases h
  · split at h
    · cases h
    · split at h
      · cases h
      · exact Except.ok.inj h

theorem isValid_of_check {day : CalendarDate} (h : d.check = .ok day) : day.isValid = true := by
  unfold check at h
  split at h
  · cases h
  · split at h
    · cases h
    · split at h
      · cases h
      · cases h
        rename_i hyear hmonth hday
        simp only [Bool.or_eq_true, decide_eq_true_eq] at hyear hmonth hday
        simp only [isValid, Bool.and_eq_true, decide_eq_true_eq]
        omega

end CalendarDate

/-!
# Reading
-/

namespace WrittenTimestamp

theorem readDigits?_paddedDigits {w n : Nat} (hpos : 0 < w) (h : n < 10 ^ w)
    (rest : List Char) :
    readDigits? w (paddedDigits w n ++ rest) = some (paddedDigits w n, rest) := by
  have hlength := length_paddedDigits hpos h
  have hall : (paddedDigits w n).all Text.isDigit = true :=
    List.all_eq_true.mpr fun c hc => textIsDigit_of_isDigit (allDigits_paddedDigits w n c hc)
  simp only [readDigits?, List.take_left' hlength, List.drop_left' hlength, hlength, hall,
    decide_true, Bool.and_self, ↓reduceIte]

theorem date_toInstant (w : WrittenTimestamp) (d : CalendarDate) : (w.toInstant d).date = d := by
  unfold toInstant
  split
  · rfl
  · rfl

end WrittenTimestamp

namespace Instant

variable {i : Instant}

/-- The digits of the fraction of a second. -/
def fraction (i : Instant) : List Char :=
  if i.microsecond = 0 then [] else paddedDigits 6 i.microsecond

/-- The digits of the time of day. -/
def writtenTime (i : Instant) : WrittenTime :=
  ⟨paddedDigits 2 i.hour, paddedDigits 2 i.minute, paddedDigits 2 i.second, i.fraction⟩

/-- The digits of an instant; the start of a day has no time. -/
def written (i : Instant) : WrittenTimestamp :=
  ⟨paddedDigits 4 i.date.year, paddedDigits 2 i.date.month, paddedDigits 2 i.date.day,
    if i.isMidnight then none else some i.writtenTime⟩

theorem timeOfDay_bounds (h : i.isTimeOfDay = true) :
    i.hour ≤ 23 ∧ i.minute ≤ 59 ∧ i.second ≤ 59 ∧ i.microsecond ≤ 999999 := by
  simpa only [isTimeOfDay, Bool.and_eq_true, decide_eq_true_eq, and_assoc] using h

theorem readSeconds?_timeChars (h : i.isTimeOfDay = true) (hour minute : List Char) :
    WrittenTimestamp.readSeconds? hour minute (':' :: (paddedDigits 2 i.second ++
        if i.microsecond = 0 then [] else '.' :: paddedDigits 6 i.microsecond)) =
      some ⟨hour, minute, paddedDigits 2 i.second, i.fraction⟩ := by
  rcases timeOfDay_bounds h with ⟨_, _, hsecond, hmicrosecond⟩
  have hread := WrittenTimestamp.readDigits?_paddedDigits (w := 2) (n := i.second) (by decide)
    (by omega)
  by_cases hzero : i.microsecond = 0
  · have hreadEnd := hread []
    rw [List.append_nil] at hreadEnd
    simp [WrittenTimestamp.readSeconds?, WrittenTimestamp.isTimeEnd, WrittenTimestamp.readChar?,
      fraction, hzero, hreadEnd]
  · have hlength := length_paddedDigits (w := 6) (n := i.microsecond) (by decide) (by omega)
    have hdigits : forall c, c ∈ paddedDigits 6 i.microsecond -> Text.isDigit c = true :=
      fun c hc => textIsDigit_of_isDigit (allDigits_paddedDigits 6 i.microsecond c hc)
    have htake := List.takeWhile_eq_self_iff.mpr hdigits
    have hdrop := List.dropWhile_eq_nil_iff.mpr hdigits
    simpa [WrittenTimestamp.readSeconds?, WrittenTimestamp.isTimeEnd, WrittenTimestamp.readChar?,
      fraction, hzero, hread, htake, hdrop, hlength] using hdigits

theorem readTime?_timeChars (h : i.isTimeOfDay = true) :
    WrittenTimestamp.readTime? i.timeChars = some i.writtenTime := by
  rcases timeOfDay_bounds h with ⟨hhour, hminute, _, _⟩
  have hreadHour := WrittenTimestamp.readDigits?_paddedDigits (w := 2) (n := i.hour)
    (by decide) (by omega)
  have hreadMinute := WrittenTimestamp.readDigits?_paddedDigits (w := 2) (n := i.minute)
    (by decide) (by omega)
  have hseconds := readSeconds?_timeChars h (paddedDigits 2 i.hour) (paddedDigits 2 i.minute)
  simp only [WrittenTimestamp.readTime?, timeChars, List.append_assoc, List.cons_append, hreadHour,
    hreadMinute, WrittenTimestamp.readChar?, ↓reduceIte, Option.bind_eq_bind, Option.bind_some,
    hseconds]
  rfl

theorem read?_chars (h : i.IsReal) : WrittenTimestamp.read? i.chars = some i.written := by
  rcases CalendarDate.number_bounds h.left with ⟨hyear, hmonth, hday⟩
  have hreadYear := WrittenTimestamp.readDigits?_paddedDigits (by decide) hyear
  have hreadMonth := WrittenTimestamp.readDigits?_paddedDigits (by decide) hmonth
  have hreadDay := WrittenTimestamp.readDigits?_paddedDigits (by decide) hday
  have hreadEnd := hreadDay []
  rw [List.append_nil] at hreadEnd
  cases hmidnight : i.isMidnight with
  | true =>
      simp only [WrittenTimestamp.read?, chars, CalendarDate.chars, written, hmidnight, ↓reduceIte,
        List.append_assoc, List.cons_append, hreadYear, hreadMonth, hreadEnd,
        WrittenTimestamp.readChar?, Option.bind_eq_bind, Option.bind_some]
  | false =>
      simp [WrittenTimestamp.read?, chars, CalendarDate.chars, written, hmidnight, hreadYear,
        hreadMonth, hreadDay, WrittenTimestamp.readChar?, readTime?_timeChars h.right]

theorem toDate_written (h : i.date.isValid = true) : i.written.toDate = .ok i.date := by
  have hall : (i.written.year ++ i.written.month ++ i.written.day).all Char.isDigit = true :=
    List.all_eq_true.mpr (((allDigits_paddedDigits 4 i.date.year).append
      (allDigits_paddedDigits 2 i.date.month)).append (allDigits_paddedDigits 2 i.date.day))
  rw [WrittenTimestamp.toDate, hall]
  simp only [written, digitsValue_paddedDigits, Bool.not_true, Bool.false_eq_true, ↓reduceIte]
  exact CalendarDate.check_of_isValid h

theorem value_fraction (h : i.isTimeOfDay = true) :
    Text.digitsValue i.fraction * Nat.pow 10 (6 - i.fraction.length) = i.microsecond := by
  have hmicrosecond := (timeOfDay_bounds h).right.right.right
  unfold fraction
  split
  · rename_i hzero
    rw [hzero]
    rfl
  · rw [digitsValue_paddedDigits, length_paddedDigits (by decide) (by omega)]
    exact Nat.mul_one i.microsecond

theorem toInstant_written (h : i.isTimeOfDay = true) : i.written.toInstant i.date = i := by
  rcases i with ⟨date, hour, minute, second, microsecond⟩
  cases hmidnight : isMidnight ⟨date, hour, minute, second, microsecond⟩ with
  | true =>
      simp only [isMidnight, Bool.and_eq_true, beq_iff_eq] at hmidnight
      rcases hmidnight with ⟨⟨⟨rfl, rfl⟩, rfl⟩, rfl⟩
      rfl
  | false =>
      have hfraction := value_fraction h
      simp only [WrittenTimestamp.toInstant, written, hmidnight, Bool.false_eq_true, ↓reduceIte,
        writtenTime, digitsValue_paddedDigits, hfraction]

/-!
# Texts
-/

/-- The characters lie from the hyphen to the letter in front of the time. -/
def AllPlain (cs : List Char) : Prop :=
  forall c, c ∈ cs -> 0x2D ≤ c.toNat ∧ c.toNat ≤ 0x54

theorem allPlain_paddedDigits (width n : Nat) : AllPlain (paddedDigits width n) := by
  intro c hc
  have hbounds := isDigit_bounds (allDigits_paddedDigits _ _ c hc)
  omega

theorem AllPlain.append {cs ds : List Char} (hcs : AllPlain cs) (hds : AllPlain ds) :
    AllPlain (cs ++ ds) := by
  intro c hc
  cases List.mem_append.mp hc with
  | inl hleft => exact hcs c hleft
  | inr hright => exact hds c hright

theorem AllPlain.cons {c : Char} {cs : List Char} (hc : 0x2D ≤ c.toNat ∧ c.toNat ≤ 0x54)
    (hcs : AllPlain cs) : AllPlain (c :: cs) := by
  intro d hd
  cases List.mem_cons.mp hd with
  | inl hfirst => rw [hfirst]; exact hc
  | inr hrest => exact hcs d hrest

theorem allPlain_dateChars (d : CalendarDate) : AllPlain d.chars := by
  have hday := (allPlain_paddedDigits 2 d.day).cons (c := '-') (by decide)
  have hmonth := (allPlain_paddedDigits 2 d.month).cons (c := '-') (by decide)
  exact ((allPlain_paddedDigits 4 d.year).append hmonth).append hday

theorem allPlain_timeChars (i : Instant) : AllPlain i.timeChars := by
  have hminute := (allPlain_paddedDigits 2 i.minute).cons (c := ':') (by decide)
  have hsecond := (allPlain_paddedDigits 2 i.second).cons (c := ':') (by decide)
  have hfraction : AllPlain (if i.microsecond = 0 then []
      else '.' :: paddedDigits 6 i.microsecond) := by
    split
    · intro c hc
      cases hc
    · exact (allPlain_paddedDigits 6 i.microsecond).cons (by decide)
  exact (((allPlain_paddedDigits 2 i.hour).append hminute).append hsecond).append hfraction

theorem allPlain_chars (i : Instant) : AllPlain i.chars := by
  unfold chars
  split
  · exact allPlain_dateChars i.date
  · exact (allPlain_dateChars i.date).append ((allPlain_timeChars i).cons (by decide))

theorem isBlank_of_mem_chars {c : Char} (hc : c ∈ i.chars) : Text.isBlank c = false := by
  have hbounds := allPlain_chars i c hc
  exact isBlank_eq_false (by omega) (by omega)

end Instant

theorem Text.trimChars_of_not_blank {cs : List Char}
    (h : forall c, c ∈ cs -> Text.isBlank c = false) : Text.trimChars cs = cs := by
  have hdrop : forall ds : List Char, (forall c, c ∈ ds -> Text.isBlank c = false) ->
      ds.dropWhile Text.isBlank = ds := by
    intro ds hds
    cases ds with
    | nil => rfl
    | cons c rest => rw [List.dropWhile_cons, hds c List.mem_cons_self, if_neg Bool.false_ne_true]
  have hreverse := hdrop cs.reverse fun c hc => h c (List.mem_reverse.mp hc)
  rw [Text.trimChars, hdrop cs h, Text.dropEndWhile, hreverse, List.reverse_reverse]

namespace Moment

/-- The text of an instant denotes this instant. -/
theorem ofText_text {i : Instant} (h : i.IsReal) : ofText i.text = .ok i := by
  have htrim : Text.trimChars i.chars = i.chars :=
    Text.trimChars_of_not_blank fun _ => Instant.isBlank_of_mem_chars
  have hread := Instant.read?_chars h
  unfold ofText
  rw [Instant.text, String.toList_ofList, htrim, hread]
  simp only [Instant.toDate_written h.left, Instant.toInstant_written h.right, h.right, ↓reduceIte]

theorem isReal_of_ofText {source : String} {i : Instant} (h : ofText source = .ok i) :
    i.IsReal := by
  unfold ofText at h
  split at h
  · cases h
  · rename_i written hwritten
    split at h
    · cases h
    · rename_i day hday
      simp only at h
      split at h
      · cases h
        rename_i htime
        refine ⟨?_, htime⟩
        rw [WrittenTimestamp.date_toInstant]
        unfold WrittenTimestamp.toDate at hday
        split at hday
        · cases hday
        · exact CalendarDate.isValid_of_check hday
      · cases h

theorem isReal_of_toInstant {m : Moment} (hm : m.IsReal) {i : Instant}
    (h : m.toInstant = .ok i) : i.IsReal := by
  unfold toInstant at h
  split at h
  · exact isReal_of_ofText h
  · cases h
    exact ⟨hm, rfl⟩
  · cases h
    exact hm
  · cases h
    exact hm
  · cases h
  · cases h

end Moment

/-- A timestamp is its own timestamp. -/
theorem timestampOf_text {m : Moment} (hm : m.IsReal) {timestamp : String}
    (h : timestampOf m = .ok timestamp) : timestampOf (.text timestamp) = .ok timestamp := by
  rcases exists_of_map_eq_ok (exists_of_mapError_eq_ok h) with ⟨i, hi, htext⟩
  have hread := Moment.ofText_text (Moment.isReal_of_toInstant hm hi)
  rw [htext] at hread
  rw [timestampOf, Moment.timestamp, Moment.toInstant, hread, ← htext]
  rfl

end EventCalculus
