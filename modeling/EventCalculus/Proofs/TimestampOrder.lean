import EventCalculus.Proofs.Chronology
import EventCalculus.Proofs.TimestampText

/-!
# Timestamps in the order of time

What a moment denotes is said without its reading: the digits around the hyphens and colons are the
parts of the instant, and parts that are missing are zero.  Timestamps are ordered by their
characters as the instants are ordered by time, whatever form the moments were given in.
-/

namespace EventCalculus

/-!
# What a moment denotes
-/

/-- As many digits as asked for, of any script, which denote the number. -/
structure SpellsNumber (count n : Nat) (cs : List Char) : Prop where
  length : cs.length = count
  digits : forall c, c ∈ cs -> Text.isDigit c = true
  value : Text.digitsValue cs = n

/-- What may stand behind a time of day: nothing, or the letter of universal time. -/
def IsZone (cs : List Char) : Prop :=
  cs = [] ∨ cs = ['Z']

/-- What follows hour and minute.  Up to six digits give the fraction of a second. -/
inductive SpellsSeconds : Nat -> Nat -> List Char -> Prop where
  | missing {zone : List Char} : IsZone zone -> SpellsSeconds 0 0 zone
  | whole {s : Nat} {second zone : List Char} :
      SpellsNumber 2 s second -> IsZone zone -> SpellsSeconds s 0 (':' :: (second ++ zone))
  | fraction {s count n : Nat} {second digits zone : List Char} :
      SpellsNumber 2 s second -> SpellsNumber count n digits -> 1 ≤ count -> count ≤ 6 ->
      IsZone zone ->
      SpellsSeconds s (n * 10 ^ (6 - count)) (':' :: (second ++ '.' :: (digits ++ zone)))

/-- What follows the date of an instant; nothing means the start of the day. -/
inductive SpellsTime : Instant -> List Char -> Prop where
  | missing (d : CalendarDate) : SpellsTime d.midnight []
  | clock {i : Instant} {hour minute rest : List Char} :
      SpellsNumber 2 i.hour hour -> SpellsNumber 2 i.minute minute ->
      SpellsSeconds i.second i.microsecond rest ->
      SpellsTime i ('T' :: (hour ++ ':' :: (minute ++ rest)))

/-- A date in ASCII digits that is perhaps followed by a time of day. -/
inductive SpellsInstant (i : Instant) : List Char -> Prop where
  | intro {year month day time : List Char} :
      SpellsNumber 4 i.date.year year -> SpellsNumber 2 i.date.month month ->
      SpellsNumber 2 i.date.day day -> AllDigits (year ++ month ++ day) -> SpellsTime i time ->
      SpellsInstant i (year ++ '-' :: (month ++ '-' :: (day ++ time)))

/-- The instant that a moment stands for.  A text may have blanks around it, and what it spells has
to exist; a time of day has to be universal or of no place in particular. -/
def Moment.Denotes (i : Instant) : Moment -> Prop
  | .text source => SpellsInstant i (Text.trimChars source.toList) ∧ i.IsReal
  | .date day => i = day.midnight
  | .instant given offset => i = given ∧ (offset = none ∨ offset = some 0)
  | .other _ => False

theorem SpellsNumber.of_digits {cs : List Char}
    (h : forall c, c ∈ cs -> Text.isDigit c = true) :
    SpellsNumber cs.length (Text.digitsValue cs) cs :=
  ⟨rfl, h, rfl⟩

theorem IsZone.head_not_digit {zone : List Char} (h : IsZone zone) (c : Char)
    (hc : zone.head? = some c) : Text.isDigit c = false := by
  rcases h with rfl | rfl
  · cases hc
  · cases hc
    exact textIsDigit_eq_false (by decide) (by decide)

namespace WrittenTimestamp

theorem isTimeEnd_iff {cs : List Char} : isTimeEnd cs = true ↔ IsZone cs := by
  simp [isTimeEnd, IsZone]

/-!
## A text that is read spells its parts
-/

theorem spells_of_readDigits? {count : Nat} {cs digits rest : List Char}
    (h : readDigits? count cs = some (digits, rest)) :
    cs = digits ++ rest ∧ SpellsNumber count (Text.digitsValue digits) digits := by
  simp only [readDigits?, Option.ite_none_right_eq_some, Bool.and_eq_true, decide_eq_true_eq,
    List.all_eq_true, Option.some.injEq, Prod.mk.injEq] at h
  rcases h with ⟨⟨hlength, hall⟩, rfl, rfl⟩
  exact ⟨(List.take_append_drop count cs).symm, hlength, hall, rfl⟩

theorem eq_cons_of_readChar? {c : Char} {cs rest : List Char} (h : readChar? c cs = some rest) :
    cs = c :: rest := by
  cases cs with
  | nil => cases h
  | cons d more =>
      simp only [readChar?, Option.ite_none_right_eq_some, Option.some.injEq] at h
      rw [h.left, h.right]

theorem spells_of_readSeconds? {hour minute cs : List Char} {t : WrittenTime}
    (h : readSeconds? hour minute cs = some t) :
    t.hour = hour ∧ t.minute = minute ∧
      SpellsSeconds (Text.digitsValue t.second)
        (Text.digitsValue t.fraction * 10 ^ (6 - t.fraction.length)) cs := by
  -- without a fraction its digits denote zero
  have hzero : Text.digitsValue [] * 10 ^ (6 - ([] : List Char).length) = 0 := Nat.zero_mul _
  unfold readSeconds? at h
  split at h
  · rename_i hend
    cases h
    refine ⟨rfl, rfl, ?_⟩
    rw [hzero]
    exact .missing (isTimeEnd_iff.mp hend)
  · rcases Option.bind_eq_some_iff.mp h with ⟨afterColon, hcolon, hrest⟩
    rcases Option.bind_eq_some_iff.mp hrest with ⟨⟨second, afterSecond⟩, hsecond, htail⟩
    rcases spells_of_readDigits? hsecond with ⟨hcs, hspells⟩
    rw [eq_cons_of_readChar? hcolon, hcs]
    simp only at htail
    split at htail
    · rename_i hend
      cases htail
      refine ⟨rfl, rfl, ?_⟩
      rw [hzero]
      exact .whole hspells (isTimeEnd_iff.mp hend)
    · rcases Option.bind_eq_some_iff.mp htail with ⟨afterPoint, hpoint, hfinal⟩
      simp only [Option.ite_none_right_eq_some, Bool.and_eq_true, decide_eq_true_eq,
        Option.some.injEq, isTimeEnd_iff] at hfinal
      rcases hfinal with ⟨⟨⟨hlow, hhigh⟩, hend⟩, rfl⟩
      have hfraction : SpellsNumber _ _ (afterPoint.takeWhile Text.isDigit) :=
        .of_digits fun c hc => List.mem_takeWhile_imp hc
      have hspelled := SpellsSeconds.fraction hspells hfraction hlow hhigh hend
      rw [List.takeWhile_append_dropWhile] at hspelled
      rw [eq_cons_of_readChar? hpoint]
      exact ⟨rfl, rfl, hspelled⟩

theorem spells_of_readTime? {cs : List Char} {t : WrittenTime} (h : readTime? cs = some t)
    (year month day : List Char) (d : CalendarDate) :
    SpellsTime (toInstant ⟨year, month, day, some t⟩ d) ('T' :: cs) := by
  rcases Option.bind_eq_some_iff.mp h with ⟨⟨hour, afterHour⟩, hhour, hrest⟩
  rcases Option.bind_eq_some_iff.mp hrest with ⟨afterColon, hcolon, hrest'⟩
  rcases Option.bind_eq_some_iff.mp hrest' with ⟨⟨minute, afterMinute⟩, hminute, hseconds⟩
  rcases spells_of_readDigits? hhour with ⟨rfl, hspellsHour⟩
  rcases spells_of_readDigits? hminute with ⟨rfl, hspellsMinute⟩
  rcases spells_of_readSeconds? hseconds with ⟨rfl, rfl, hspells⟩
  rw [eq_cons_of_readChar? hcolon]
  exact .clock hspellsHour hspellsMinute hspells

/-- What is read is the date with hyphens and, unless the text ends there, a time of day. -/
theorem exists_time_of_read? {cs : List Char} {w : WrittenTimestamp} (h : read? cs = some w) :
    exists time, cs = w.year ++ '-' :: (w.month ++ '-' :: (w.day ++ time)) ∧
      SpellsNumber 4 (Text.digitsValue w.year) w.year ∧
      SpellsNumber 2 (Text.digitsValue w.month) w.month ∧
      SpellsNumber 2 (Text.digitsValue w.day) w.day ∧
      forall d, SpellsTime (w.toInstant d) time := by
  rcases Option.bind_eq_some_iff.mp h with ⟨⟨year, afterYear⟩, hyear, hrest⟩
  rcases Option.bind_eq_some_iff.mp hrest with ⟨beforeMonth, hhyphen, hrest'⟩
  rcases Option.bind_eq_some_iff.mp hrest' with ⟨⟨month, afterMonth⟩, hmonth, hrestHyphen⟩
  rcases Option.bind_eq_some_iff.mp hrestHyphen with ⟨beforeDay, hhyphen', hrestDay⟩
  rcases Option.bind_eq_some_iff.mp hrestDay with ⟨⟨day, time⟩, hday, htail⟩
  rcases spells_of_readDigits? hyear with ⟨hcs, hspellsYear⟩
  rcases spells_of_readDigits? hmonth with ⟨hcsMonth, hspellsMonth⟩
  rcases spells_of_readDigits? hday with ⟨hcsDay, hspellsDay⟩
  rw [hcs, eq_cons_of_readChar? hhyphen, hcsMonth, eq_cons_of_readChar? hhyphen', hcsDay]
  refine ⟨time, ?_⟩
  simp only at htail
  split at htail
  · rename_i hend
    cases htail
    rw [hend]
    exact ⟨rfl, hspellsYear, hspellsMonth, hspellsDay, .missing⟩
  · rcases Option.bind_eq_some_iff.mp htail with ⟨clock, hclock, hread⟩
    rcases Option.bind_eq_some_iff.mp hread with ⟨t, ht, hw⟩
    cases hw
    rw [eq_cons_of_readChar? hclock]
    exact ⟨rfl, hspellsYear, hspellsMonth, hspellsDay, spells_of_readTime? ht year month day⟩

theorem spells_toInstant {cs : List Char} {w : WrittenTimestamp} {day : CalendarDate}
    (hread : read? cs = some w) (hdate : w.toDate = .ok day) :
    SpellsInstant (w.toInstant day) cs := by
  rcases exists_time_of_read? hread with ⟨time, rfl, hyear, hmonth, hday, htime⟩
  unfold toDate at hdate
  split at hdate
  · cases hdate
  · rename_i hascii
    rw [Bool.not_eq_true', Bool.not_eq_false, List.all_eq_true] at hascii
    rw [← CalendarDate.eq_of_check hdate]
    exact .intro (by rw [date_toInstant]; exact hyear) (by rw [date_toInstant]; exact hmonth)
      (by rw [date_toInstant]; exact hday) hascii (htime _)

/-!
## A text that spells its parts is read
-/

theorem readDigits?_of_spells {count n : Nat} {digits : List Char} (h : SpellsNumber count n digits)
    (rest : List Char) : readDigits? count (digits ++ rest) = some (digits, rest) := by
  have hall : digits.all Text.isDigit = true := List.all_eq_true.mpr h.digits
  simp only [readDigits?, List.take_left' h.length, List.drop_left' h.length, h.length, hall,
    decide_true, Bool.and_self, ↓reduceIte]

theorem readSeconds?_of_spells (hour minute : List Char) {s microsecond : Nat} {cs : List Char}
    (h : SpellsSeconds s microsecond cs) :
    exists second fraction, readSeconds? hour minute cs = some ⟨hour, minute, second, fraction⟩ ∧
      Text.digitsValue second = s ∧
      Text.digitsValue fraction * 10 ^ (6 - fraction.length) = microsecond := by
  cases h with
  | missing hzone =>
      refine ⟨[], [], ?_, rfl, Nat.zero_mul _⟩
      rw [readSeconds?, if_pos (isTimeEnd_iff.mpr hzone)]
  | @whole _ second zone hsecond hzone =>
      refine ⟨second, [], ?_, hsecond.value, Nat.zero_mul _⟩
      have hread := readDigits?_of_spells hsecond zone
      have hcolon : isTimeEnd (':' :: (second ++ zone)) = false := rfl
      simp only [readSeconds?, readChar?, hcolon, hread, isTimeEnd_iff.mpr hzone,
        Bool.false_eq_true, ↓reduceIte, Option.bind_eq_bind, Option.bind_some]
  | @fraction _ count n second digits zone hsecond hdigits hlow hhigh hzone =>
      refine ⟨second, digits, ?_, hsecond.value, by rw [hdigits.value, hdigits.length]⟩
      have hread := readDigits?_of_spells hsecond ('.' :: (digits ++ zone))
      have hcolon : isTimeEnd (':' :: (second ++ '.' :: (digits ++ zone))) = false := rfl
      have hpoint : isTimeEnd ('.' :: (digits ++ zone)) = false := rfl
      have htake := takeWhile_run_append hdigits.digits hzone.head_not_digit
      have hdrop := dropWhile_run_append hdigits.digits hzone.head_not_digit
      simp only [readSeconds?, readChar?, hcolon, hpoint, hread, htake,
        hdrop, hdigits.length, hlow, hhigh, isTimeEnd_iff.mpr hzone, Bool.false_eq_true,
        decide_true, Bool.and_self, ↓reduceIte, Option.bind_eq_bind, Option.bind_some]

theorem readTime?_of_spells {i : Instant} {hour minute rest : List Char}
    (hhour : SpellsNumber 2 i.hour hour) (hminute : SpellsNumber 2 i.minute minute)
    (hseconds : SpellsSeconds i.second i.microsecond rest) :
    exists t, readTime? (hour ++ ':' :: (minute ++ rest)) = some t ∧
      forall year month day, toInstant ⟨year, month, day, some t⟩ i.date = i := by
  rcases readSeconds?_of_spells hour minute hseconds with
    ⟨second, fraction, hread, hsecond, hfraction⟩
  refine ⟨⟨hour, minute, second, fraction⟩, ?_, ?_⟩
  · have hreadHour := readDigits?_of_spells hhour (':' :: (minute ++ rest))
    have hreadMinute := readDigits?_of_spells hminute rest
    simp only [readTime?, hreadHour, hreadMinute, readChar?, ↓reduceIte, Option.bind_eq_bind,
      Option.bind_some, hread]
  · intro year month day
    simp only [toInstant, hhour.value, hminute.value, hsecond, Nat.pow_eq, hfraction]

/-- A text that spells an instant is read as its date and its time of day. -/
theorem read?_of_spells {i : Instant} {cs : List Char} (h : SpellsInstant i cs) :
    exists w, read? cs = some w ∧ (w.year ++ w.month ++ w.day).all Char.isDigit = true ∧
      ⟨Text.digitsValue w.year, Text.digitsValue w.month, Text.digitsValue w.day⟩ = i.date ∧
      w.toInstant i.date = i := by
  cases h with
  | @intro year month day time hyear hmonth hday hascii htime =>
      have hreadYear := readDigits?_of_spells hyear ('-' :: (month ++ '-' :: (day ++ time)))
      have hreadMonth := readDigits?_of_spells hmonth ('-' :: (day ++ time))
      have hreadDay := readDigits?_of_spells hday time
      have hdate : (⟨Text.digitsValue year, Text.digitsValue month, Text.digitsValue day⟩ :
          CalendarDate) = i.date := by
        rw [hyear.value, hmonth.value, hday.value]
      cases htime with
      | missing d =>
          refine ⟨⟨year, month, day, none⟩, ?_, List.all_eq_true.mpr hascii, hdate, rfl⟩
          simp only [read?, hreadYear, hreadMonth, hreadDay, readChar?, ↓reduceIte,
            Option.bind_eq_bind, Option.bind_some]
      | @clock _ hour minute rest hhour hminute hseconds =>
          rcases readTime?_of_spells hhour hminute hseconds with ⟨t, ht, hinstant⟩
          refine ⟨⟨year, month, day, some t⟩, ?_, List.all_eq_true.mpr hascii, hdate,
            hinstant year month day⟩
          simp only [read?, hreadYear, hreadMonth, hreadDay, readChar?, ht, reduceCtorEq,
            ↓reduceIte, Option.bind_eq_bind, Option.bind_some]

end WrittenTimestamp

namespace Moment

theorem ofText_eq_ok_iff {source : String} {i : Instant} :
    ofText source = .ok i ↔ SpellsInstant i (Text.trimChars source.toList) ∧ i.IsReal := by
  constructor
  · intro h
    refine ⟨?_, isReal_of_ofText h⟩
    unfold ofText at h
    split at h
    · cases h
    · rename_i w hread
      split at h
      · cases h
      · rename_i day hdate
        simp only at h
        split at h
        · cases h
          exact WrittenTimestamp.spells_toInstant hread hdate
        · cases h
  · intro h
    rcases h with ⟨hspells, hreal⟩
    rcases WrittenTimestamp.read?_of_spells hspells with ⟨w, hread, hascii, hdate, hinstant⟩
    have hcheck : w.toDate = .ok i.date := by
      rw [WrittenTimestamp.toDate, hascii, hdate]
      exact CalendarDate.check_of_isValid hreal.left
    simp only [ofText, hread, hcheck, hinstant, hreal.right, ↓reduceIte]

/-- A moment that exists has the instants that it denotes, and no others. -/
theorem toInstant_eq_ok_iff {m : Moment} (hm : m.IsReal) {i : Instant} :
    m.toInstant = .ok i ↔ m.Denotes i := by
  cases m with
  | text source => exact ofText_eq_ok_iff
  | date day =>
      rw [toInstant, Except.ok.injEq]
      exact eq_comm
  | instant given offset =>
      unfold toInstant Denotes
      split
      · cases ‹_ = Moment.text _›
      · cases ‹_ = Moment.date _›
      · cases ‹_ = Moment.instant _ none›
        simp [eq_comm]
      · cases ‹_ = Moment.instant _ (some 0)›
        simp [eq_comm]
      · rename_i hzero heq
        cases heq
        simp only [reduceCtorEq, Option.some.injEq, false_or, false_iff, not_and]
        intro _ h
        exact hzero h
      · cases ‹_ = Moment.other _›
  | other v =>
      constructor
      · intro h
        cases h
      · intro h
        cases h

end Moment

/-!
# The order of texts
-/

theorem append_lt_append {xs ys : List Char} (hlength : xs.length = ys.length) (h : xs < ys)
    (more others : List Char) : xs ++ more < ys ++ others := by
  induction xs generalizing ys with
  | nil =>
      rw [List.length_eq_zero_iff.mp hlength.symm] at h
      cases h
  | cons x xs ih =>
      cases ys with
      | nil => cases hlength
      | cons y ys =>
          rw [List.cons_append, List.cons_append, List.cons_lt_cons_iff]
          rcases List.cons_lt_cons_iff.mp h with hlt | ⟨heq, hrest⟩
          · exact Or.inl hlt
          · exact Or.inr ⟨heq, ih (Nat.succ.inj hlength) hrest⟩

/-- One more digit is written behind the others. -/
theorem paddedDigits_succ {w : Nat} (hw : 0 < w) (n : Nat) :
    paddedDigits (w + 1) n = paddedDigits w (n / 10) ++ [(n % 10).digitChar] := by
  simp only [paddedDigits]
  by_cases h : n < 10
  · have hzero : n / 10 = 0 := by omega
    have hwidth : w + 1 - 1 = w - 1 + 1 := by omega
    simp only [Nat.toDigits_of_lt_base h, hzero, Nat.toDigits_zero, Nat.mod_eq_of_lt h,
      List.length_singleton, hwidth, List.replicate_succ']
  · rw [Nat.toDigits_of_base_le (by decide) (Nat.not_lt.mp h), List.length_append,
      List.length_singleton, Nat.add_sub_add_right, List.append_assoc]

theorem digitChar_lt_digitChar : forall m, m < 10 -> forall n, n < m ->
    Nat.digitChar n < Nat.digitChar m := by
  decide

/-- Numbers that are padded to one width are ordered by their digits. -/
theorem paddedDigits_lt_paddedDigits {w n m : Nat} (hw : 0 < w) (h : n < m) (hm : m < 10 ^ w) :
    paddedDigits w n < paddedDigits w m := by
  induction w generalizing n m with
  | zero => cases hw
  | succ w ih =>
      cases w with
      | zero =>
          have hlt := digitChar_lt_digitChar m (by omega) n h
          rw [paddedDigits, paddedDigits, Nat.toDigits_of_lt_base (by omega),
            Nat.toDigits_of_lt_base (by omega)]
          exact List.cons_lt_cons_iff.mpr (Or.inl hlt)
      | succ w =>
          have hpos : 0 < w + 1 := Nat.succ_pos w
          rw [paddedDigits_succ hpos, paddedDigits_succ hpos]
          have hhigh : m / 10 < 10 ^ (w + 1) := by
            rw [Nat.pow_succ] at hm
            exact Nat.div_lt_of_lt_mul (by rw [Nat.mul_comm]; exact hm)
          rcases Nat.lt_or_eq_of_le (Nat.div_le_div_right (c := 10) (Nat.le_of_lt h)) with
            hlt | heq
          · have hlow : n / 10 < 10 ^ (w + 1) := Nat.lt_trans hlt hhigh
            have hlength :=
              (length_paddedDigits hpos hlow).trans (length_paddedDigits hpos hhigh).symm
            exact append_lt_append hlength (ih hpos hlt hhigh) _ _
          · have hdigit : n % 10 < m % 10 := by omega
            have hlt := digitChar_lt_digitChar _ (Nat.mod_lt m (by decide)) _ hdigit
            rw [heq]
            exact List.append_left_lt (List.cons_lt_cons_iff.mpr (Or.inl hlt))

/-- Two texts that begin with padded numbers of one width. -/
theorem paddedDigits_append_lt {w n m : Nat} (hw : 0 < w) (hn : n < 10 ^ w) (hm : m < 10 ^ w)
    {more others : List Char} (h : n < m ∨ n = m ∧ more < others) :
    paddedDigits w n ++ more < paddedDigits w m ++ others := by
  rcases h with hlt | ⟨rfl, hmore⟩
  · have hlength := (length_paddedDigits hw hn).trans (length_paddedDigits hw hm).symm
    exact append_lt_append hlength (paddedDigits_lt_paddedDigits hw hlt hm) more others
  · exact List.append_left_lt hmore

namespace Instant

variable {i j : Instant}

/-- The fraction of a second with its point; there is none if it is zero. -/
def fractionChars (i : Instant) : List Char :=
  if i.microsecond = 0 then [] else '.' :: paddedDigits 6 i.microsecond

/-- What follows the date in the text of an instant. -/
def clockChars (i : Instant) : List Char :=
  if i.isMidnight then [] else 'T' :: i.timeChars

theorem chars_eq (i : Instant) :
    i.chars = paddedDigits 4 i.date.year ++ '-' :: (paddedDigits 2 i.date.month ++
      '-' :: (paddedDigits 2 i.date.day ++ i.clockChars)) := by
  cases hmidnight : i.isMidnight with
  | true => simp [chars, clockChars, hmidnight, CalendarDate.chars]
  | false => simp [chars, clockChars, hmidnight, CalendarDate.chars]

theorem timeChars_eq (i : Instant) :
    i.timeChars = paddedDigits 2 i.hour ++ ':' :: (paddedDigits 2 i.minute ++
      ':' :: (paddedDigits 2 i.second ++ i.fractionChars)) := by
  simp [timeChars, fractionChars]

theorem fractionChars_lt (h : i.microsecond < j.microsecond) (hj : j.microsecond < 10 ^ 6) :
    i.fractionChars < j.fractionChars := by
  have hpos : ¬ j.microsecond = 0 := by omega
  rw [fractionChars, fractionChars, if_neg hpos]
  split
  · exact List.nil_lt_cons _ _
  · exact List.cons_lt_cons_iff.mpr
      (Or.inr ⟨rfl, paddedDigits_lt_paddedDigits (by decide) h hj⟩)

/-- The times of day in their order, the start of the day first. -/
theorem clockChars_lt (hi : i.isTimeOfDay = true) (hj : j.isTimeOfDay = true)
    (h : [i.hour, i.minute, i.second, i.microsecond] <
      [j.hour, j.minute, j.second, j.microsecond]) : i.clockChars < j.clockChars := by
  rcases timeOfDay_bounds hi with ⟨hhour, hminute, hsecond, _⟩
  rcases timeOfDay_bounds hj with ⟨hhour', hminute', hsecond', hmicrosecond'⟩
  simp only [List.cons_lt_cons_iff, List.lt_irrefl, and_false, or_false] at h
  have hlate : j.isMidnight = false := by
    apply Bool.eq_false_iff.mpr
    intro hmidnight
    simp only [isMidnight, Bool.and_eq_true, beq_iff_eq] at hmidnight
    omega
  rw [clockChars, clockChars, hlate, if_neg Bool.false_ne_true]
  split
  · exact List.nil_lt_cons _ _
  · rw [timeChars_eq, timeChars_eq]
    apply List.cons_lt_cons_iff.mpr
    refine Or.inr ⟨rfl, ?_⟩
    apply paddedDigits_append_lt (by decide) (by omega) (by omega)
    refine h.imp_right (And.imp_right fun h => List.cons_lt_cons_iff.mpr (Or.inr ⟨rfl, ?_⟩))
    apply paddedDigits_append_lt (by decide) (by omega) (by omega)
    refine h.imp_right (And.imp_right fun h => List.cons_lt_cons_iff.mpr (Or.inr ⟨rfl, ?_⟩))
    apply paddedDigits_append_lt (by decide) (by omega) (by omega)
    exact h.imp_right (And.imp_right fun h => fractionChars_lt h (by omega))

theorem text_lt_of_isBefore (hi : i.IsReal) (hj : j.IsReal) (h : i.isBefore j) :
    i.text < j.text := by
  rcases CalendarDate.number_bounds hi.left with ⟨hyear, hmonth, hday⟩
  rcases CalendarDate.number_bounds hj.left with ⟨hyear', hmonth', hday'⟩
  rw [String.lt_iff_toList_lt, text, text, String.toList_ofList, String.toList_ofList, chars_eq,
    chars_eq]
  rw [isBefore, parts, parts, List.cons_lt_cons_iff, List.cons_lt_cons_iff,
    List.cons_lt_cons_iff] at h
  apply paddedDigits_append_lt (by decide) hyear hyear'
  refine h.imp_right (And.imp_right fun h => List.cons_lt_cons_iff.mpr (Or.inr ⟨rfl, ?_⟩))
  apply paddedDigits_append_lt (by decide) hmonth hmonth'
  refine h.imp_right (And.imp_right fun h => List.cons_lt_cons_iff.mpr (Or.inr ⟨rfl, ?_⟩))
  apply paddedDigits_append_lt (by decide) hday hday'
  exact h.imp_right (And.imp_right (clockChars_lt hi.right hj.right))

theorem eq_of_parts_eq (h : i.parts = j.parts) : i = j := by
  rcases i with ⟨⟨_, _, _⟩, _, _, _, _⟩
  rcases j with ⟨⟨_, _, _⟩, _, _, _, _⟩
  simp only [parts, List.cons.injEq, and_true] at h
  simp only [mk.injEq, CalendarDate.mk.injEq]
  exact ⟨⟨h.left, h.right.left, h.right.right.left⟩, h.right.right.right⟩

/-- Of two instants one is before the other, unless they are equal. -/
theorem isBefore_trichotomy (i j : Instant) : i.isBefore j ∨ i = j ∨ j.isBefore i :=
  (lt_trichotomy i.parts j.parts).imp_right (Or.imp_left eq_of_parts_eq)

theorem text_lt_iff (hi : i.IsReal) (hj : j.IsReal) : i.text < j.text ↔ i.isBefore j := by
  constructor
  · intro h
    rcases isBefore_trichotomy i j with hbefore | rfl | hafter
    · exact hbefore
    · exact absurd h (lt_irrefl _)
    · exact absurd h (lt_asymm (text_lt_of_isBefore hj hi hafter))
  · exact text_lt_of_isBefore hi hj

theorem text_eq_iff (hi : i.IsReal) (hj : j.IsReal) : i.text = j.text ↔ i = j := by
  constructor
  · intro h
    rcases isBefore_trichotomy i j with hbefore | heq | hafter
    · exact absurd h (text_lt_of_isBefore hi hj hbefore).ne
    · exact heq
    · exact absurd h (text_lt_of_isBefore hj hi hafter).ne'
  · exact congrArg text

end Instant

/-- Timestamps are in the order of the instants that the moments denote, and equal exactly for
equal instants, whatever form the moments were given in.  A timestamp is its own timestamp. -/
theorem Moment.timestamp_lt_iff_isBefore {v w : Moment} (hv : v.IsReal) (hw : w.IsReal)
    {s t : String} (hs : v.timestamp = .ok s) (ht : w.timestamp = .ok t) :
    exists i j, (forall k, v.Denotes k ↔ k = i) ∧ (forall k, w.Denotes k ↔ k = j) ∧
      (s < t ↔ i.isBefore j) ∧ (s = t ↔ i = j) ∧ (Moment.text s).timestamp = .ok s := by
  rcases exists_of_map_eq_ok hs with ⟨i, hi, rfl⟩
  rcases exists_of_map_eq_ok ht with ⟨j, hj, rfl⟩
  have hreal := isReal_of_toInstant hv hi
  have hreal' := isReal_of_toInstant hw hj
  refine ⟨i, j, ?_, ?_, Instant.text_lt_iff hreal hreal', Instant.text_eq_iff hreal hreal', ?_⟩
  · intro k
    rw [← toInstant_eq_ok_iff hv, hi, Except.ok.injEq]
    exact eq_comm
  · intro k
    rw [← toInstant_eq_ok_iff hw, hj, Except.ok.injEq]
    exact eq_comm
  · rw [timestamp, toInstant, ofText_text hreal]
    rfl

/-- Half past nine, with blanks around it and an hour in Arabic digits. -/
def halfPastNine : Moment :=
  .text " 2024-06-01T٠٩:30Z\n"

/-- Five microseconds after half past nine, in universal time. -/
def justAfter : Moment :=
  .instant ⟨⟨2024, 6, 1⟩, 9, 30, 0, 5⟩ (some 0)

/-- A fraction makes a timestamp longer and later. -/
theorem Moment.timestamp_lt_iff_isBefore_halfPastNine :
    halfPastNine.IsReal ∧ justAfter.IsReal ∧
      halfPastNine.timestamp = .ok "2024-06-01T09:30:00" ∧
      justAfter.timestamp = .ok "2024-06-01T09:30:00.000005" ∧
      exists i j, halfPastNine.Denotes i ∧ justAfter.Denotes j ∧ i.isBefore j ∧ i ≠ j := by
  have hv : halfPastNine.IsReal := trivial
  have hw : justAfter.IsReal := ⟨by decide, by decide⟩
  have hs : halfPastNine.timestamp = .ok "2024-06-01T09:30:00" :=
    toOption_eq_some_iff.mp (by decide +kernel)
  have ht : justAfter.timestamp = .ok "2024-06-01T09:30:00.000005" :=
    toOption_eq_some_iff.mp (by decide +kernel)
  rcases timestamp_lt_iff_isBefore hv hw hs ht with ⟨i, j, hi, hj, hlt, heq, _⟩
  exact ⟨hv, hw, hs, ht, i, j, (hi i).mpr rfl, (hj j).mpr rfl, hlt.mp (by decide +kernel),
    fun h => absurd (heq.mpr h) (by decide +kernel)⟩

end EventCalculus
