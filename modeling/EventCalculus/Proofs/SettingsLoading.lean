import EventCalculus.Proofs.DigitRuns
import EventCalculus.Proofs.FactLines
import EventCalculus.Settings.File

/-!
# Loading settings

Whatever stands at the place of a settings file, loading gives settings that can be used: a date in
the normal form of timestamps, a positive depth limit and a positive size limit.  Two kinds of
values stop it, a size limit that is too large for a floating point number and a text or value that
names no location, and so does an integer with more digits than can be read.
-/

namespace EventCalculus

/-!
# Line feeds
-/

namespace Text

theorem prefix_of_prefix_unifyNewlines {run cs : List Char} (hrun : '\n' ∉ run)
    (h : run <+: unifyNewlines cs) : run <+: cs := by
  fun_induction unifyNewlines cs generalizing run with
  | case1 => exact h
  | case2 rest _ =>
      rcases List.prefix_cons_iff.mp h with rfl | ⟨more, rfl, _⟩
      · exact List.nil_prefix
      · exact absurd List.mem_cons_self hrun
  | case3 rest _ _ =>
      rcases List.prefix_cons_iff.mp h with rfl | ⟨more, rfl, _⟩
      · exact List.nil_prefix
      · exact absurd List.mem_cons_self hrun
  | case4 c rest _ _ ih =>
      rcases List.prefix_cons_iff.mp h with rfl | ⟨more, rfl, hmore⟩
      · exact List.nil_prefix
      · exact (List.prefix_cons_inj c).mpr (ih (List.not_mem_of_not_mem_cons hrun) hmore)

/-- Only line feeds are new, so what has none stands in the original characters. -/
theorem infix_of_infix_unifyNewlines {run cs : List Char} (hrun : '\n' ∉ run)
    (h : run <:+: unifyNewlines cs) : run <:+: cs := by
  fun_induction unifyNewlines cs with
  | case1 => exact h
  | case2 rest ih =>
      rcases List.infix_cons_iff.mp h with hstart | hlater
      · rcases List.prefix_cons_iff.mp hstart with rfl | ⟨more, rfl, _⟩
        · exact List.nil_infix
        · exact absurd List.mem_cons_self hrun
      · exact (ih hlater).trans (List.suffix_append ['\r', '\n'] rest).isInfix
  | case3 rest _ ih =>
      rcases List.infix_cons_iff.mp h with hstart | hlater
      · rcases List.prefix_cons_iff.mp hstart with rfl | ⟨more, rfl, _⟩
        · exact List.nil_infix
        · exact absurd List.mem_cons_self hrun
      · exact (ih hlater).trans (List.suffix_cons '\r' rest).isInfix
  | case4 c rest _ _ ih =>
      rcases List.infix_cons_iff.mp h with hstart | hlater
      · rcases List.prefix_cons_iff.mp hstart with rfl | ⟨more, rfl, hmore⟩
        · exact List.nil_infix
        · exact ((List.prefix_cons_inj c).mpr (prefix_of_prefix_unifyNewlines
            (List.not_mem_of_not_mem_cons hrun) hmore)).isInfix
      · exact (ih hlater).trans (List.suffix_cons c rest).isInfix

end Text

theorem HasLongRun.of_unifyNewlines {count : Nat} {cs : List Char}
    (h : HasLongRun count (Text.unifyNewlines cs)) : HasLongRun count cs := by
  rcases h.run with ⟨run, hinfix, hdigits, hlength⟩
  have hbreak : '\n' ∉ run := fun hmem => absurd (hdigits '\n' hmem) (by decide)
  exact ⟨⟨run, Text.infix_of_infix_unifyNewlines hbreak hinfix, hdigits, hlength⟩, h.long⟩

/-!
# Positive numbers
-/

namespace Binary64

theorem le_roundQuotient (num den : Nat) : num / den ≤ roundQuotient num den := by
  simp only [roundQuotient]
  split
  · exact Nat.le_refl _
  · split
    · exact Nat.le_succ _
    · exact Nat.le_add_right _ _

/-- A number that is not less than a unit is not rounded to zero. -/
theorem nearestRank_pos {num den : Nat} (h : 0 < num / den) : 0 < nearestRank num den := by
  apply Nat.lt_min.mpr
  refine ⟨?_, Nat.mul_pos (by decide) (Nat.pow_pos (by decide))⟩
  split
  · rw [Nat.zero_mul, Nat.zero_add, Nat.pow_eq, Nat.pow_zero, Nat.mul_one]
    exact Nat.lt_of_lt_of_le h (le_roundQuotient num den)
  · rename_i hlarge
    have hlog : 53 ≤ (num / den).log2 := (Nat.le_log2 (Nat.ne_of_gt h)).mpr (Nat.not_lt.mp hlarge)
    exact Nat.add_pos_left (Nat.mul_pos (by omega) (Nat.pow_pos (by decide))) _

/-- A positive integer is not rounded to zero. -/
theorem isZero_ofQuotient_one (negative : Bool) {n : Nat} (h : 0 < n) :
    (ofQuotient negative n 1).isZero = false := by
  have hunits : 0 < n * unitsPerOne / 1 := by
    rw [Nat.div_one, unitsPerOne, Nat.pow_eq]
    exact Nat.mul_pos h (Nat.two_pow_pos 1074)
  exact beq_eq_false_iff_ne.mpr (Nat.ne_of_gt (nearestRank_pos hunits))

/-- A positive integer stays positive. -/
theorem positive_of_ofInt? {n : Int} (hpos : 0 < n) {x : Binary64} (h : ofInt? n = some x) :
    x.negative = false ∧ x.isZero = false := by
  simp only [ofInt?, Option.ite_none_right_eq_some, Option.some.injEq] at h
  rcases h with ⟨_, rfl⟩
  exact ⟨decide_eq_false (by omega), isZero_ofQuotient_one _ (by omega)⟩

end Binary64

/-!
# Locations
-/

/-- The value names no location: it is neither null nor a text, or a text whose first part begins
with a tilde and a name. -/
inductive NoLocation : Value -> SettingsFault -> Prop where
  | kind {v : Value} : v ≠ .null -> (forall s, v ≠ .text s) -> NoLocation v .kind
  | home {s first : String} {rest : List String} : Location.ofText s = ⟨"", first :: rest⟩ ->
      first ≠ "~" -> first.toList.head? = some '~' -> NoLocation (.text s) .home

theorem NoLocation.cases {v : Value} {fault : SettingsFault} (h : NoLocation v fault) :
    fault = .kind ∨ fault = .home := by
  cases h with
  | kind _ _ => exact Or.inl rfl
  | home _ _ _ => exact Or.inr rfl

theorem NoLocation.unique {v : Value} {fault other : SettingsFault} (h : NoLocation v fault)
    (hother : NoLocation v other) : fault = other := by
  cases h with
  | kind _ htext =>
      cases hother with
      | kind _ _ => rfl
      | home _ _ _ => exact absurd rfl (htext _)
  | home _ _ _ =>
      cases hother with
      | kind _ htext => exact absurd rfl (htext _)
      | home _ _ _ => rfl

theorem Location.expand?_eq_none_iff {l home : Location} : l.expand? home = none ↔
    exists first rest, l = ⟨"", first :: rest⟩ ∧ first ≠ "~" ∧
      first.toList.head? = some '~' := by
  constructor
  · intro h
    unfold expand? at h
    split at h
    · rename_i first rest hroot hparts
      split at h
      · cases h
      · rename_i hhome
        split at h
        · rename_i htilde
          rcases l with ⟨root, parts⟩
          cases hroot
          cases hparts
          exact ⟨first, rest, rfl, hhome, htilde⟩
        · cases h
    · cases h
  · rintro ⟨first, rest, rfl, hhome, htilde⟩
    simp only [expand?, hhome, htilde, ↓reduceIte]

namespace Settings

variable {home : Location} {v : Value} {fault : SettingsFault}

theorem readLocation_eq_error_iff (hv : v ≠ .null) :
    readLocation home v = .error fault ↔ NoLocation v fault := by
  cases v with
  | text s =>
      simp only [readLocation]
      cases hexpand : (Location.ofText s).expand? home with
      | some l =>
          constructor
          · intro h
            cases h
          · intro h
            cases h with
            | kind _ htext => exact absurd rfl (htext s)
            | home hparts hother htilde =>
                have hnone : (Location.ofText s).expand? home = none :=
                  Location.expand?_eq_none_iff.mpr ⟨_, _, hparts, hother, htilde⟩
                rw [hexpand] at hnone
                cases hnone
      | none =>
          rcases Location.expand?_eq_none_iff.mp hexpand with
            ⟨first, rest, hparts, hother, htilde⟩
          constructor
          · intro h
            cases h
            exact .home hparts hother htilde
          · intro h
            cases h with
            | kind _ htext => exact absurd rfl (htext s)
            | home _ _ _ => rfl
  | null => exact absurd rfl hv
  | _ =>
      constructor
      · intro h
        cases h
        exact .kind hv fun s hs => by cases hs
      · intro h
        cases h
        rfl

theorem not_noLocation_null : ¬ NoLocation .null fault := by
  intro h
  cases h with
  | kind hnull _ => exact hnull rfl

theorem readDirectory_eq_error_iff :
    readDirectory home v = .error fault ↔ NoLocation v fault := by
  unfold readDirectory
  split
  · exact ⟨fun h => (by cases h), fun h => absurd h not_noLocation_null⟩
  · rename_i hv
    rw [← readLocation_eq_error_iff hv]
    cases readLocation home v with
    | error first => exact ⟨fun h => congrArg _ (Except.error.inj h),
        fun h => congrArg _ (Except.error.inj h)⟩
    | ok l => exact ⟨fun h => (by cases h), fun h => (by cases h)⟩

theorem readArchive_eq_error_iff :
    readArchive home v = .error fault ↔ NoLocation v fault := by
  unfold readArchive
  split
  · exact ⟨fun h => (by cases h), fun h => absurd h not_noLocation_null⟩
  · rename_i hv
    exact readLocation_eq_error_iff hv

/-- The date is left out or gives a timestamp. -/
def DateUsable (v : Value) : Prop :=
  v = .null ∨ exists t, (Moment.ofValue v).timestamp = .ok t

theorem readDate_cases (v : Value) :
    (exists date, readDate v = .ok date ∧ DateUsable v ∧
        forall t, date = some t -> IsTimestamp t) ∨
      exists reason, readDate v = .error (.timestamp reason) ∧ ¬ DateUsable v := by
  unfold readDate
  split
  · exact Or.inl ⟨none, rfl, Or.inl rfl, fun t ht => by cases ht⟩
  · rename_i hv
    cases htime : (Moment.ofValue v).timestamp with
    | error reason =>
        refine Or.inr ⟨reason, rfl, ?_⟩
        rintro (hnull | ⟨t, ht⟩)
        · exact hv hnull
        · rw [htime] at ht
          cases ht
    | ok timestamp =>
        refine Or.inl ⟨some timestamp, rfl, Or.inr ⟨timestamp, htime⟩, ?_⟩
        intro t ht
        cases ht
        have hreal : (Moment.ofValue v).IsReal := by
          unfold Moment.ofValue
          split
          · trivial
          · trivial
        apply timestampOf_text hreal
        rw [timestampOf, htime]
        rfl

end Settings

/-!
# Limits
-/

namespace SettingsFile

/-- The depth limit that is used is an integer that is at least one, or true. -/
theorem depthLimit_positive (v : Option Value) :
    exists q n, Quantity.ofValue? (depthLimit v) = some q ∧ q.floor? = some n ∧ 1 ≤ n ∧
      q.isLess 1 = false := by
  have hstandard : exists q n,
      Quantity.ofValue? (.int EventStore.defaultMaxDepth) = some q ∧ q.floor? = some n ∧ 1 ≤ n ∧
        q.isLess 1 = false :=
    ⟨.number (.int EventStore.defaultMaxDepth), EventStore.defaultMaxDepth, rfl, rfl, by decide,
      rfl⟩
  unfold depthLimit
  split
  · rename_i n
    split
    · exact hstandard
    · rename_i hn
      exact ⟨.number (.int n), n, rfl, rfl, by omega, decide_eq_false hn⟩
  · exact ⟨.truth true, 1, rfl, rfl, Int.le_refl 1, rfl⟩
  · exact hstandard

/-- The size limit is too large for a floating point number. -/
def SizeOverflows (v : Option Value) : Prop :=
  exists n : Int, v = some (.number (.int n)) ∧ 0 < n ∧ Binary64.ofInt? n = none

/-- A size limit that is a positive number, or undefined because it is so in the file. -/
inductive SizeUsable (v : Option Value) : Quantity -> Prop where
  | positive {x : Binary64} : x.negative = false -> x.isZero = false ->
      SizeUsable v (.number (.float x))
  | undefined : v = some .nan -> SizeUsable v .undefined

theorem SizeUsable.isAtMostZero {v : Option Value} {q : Quantity} (h : SizeUsable v q) :
    q.isAtMostZero = false := by
  cases h with
  | positive hsign hzero => exact Bool.or_eq_false_iff.mpr ⟨hzero, hsign⟩
  | undefined _ => rfl

theorem sizeUsable_ofQuotient (v : Option Value) {n : Nat} (h : 0 < n) :
    SizeUsable v (.number (.float (Binary64.ofQuotient false n 1))) :=
  .positive rfl (Binary64.isZero_ofQuotient_one false h)

/-- The size limit overflows, or it can be used. -/
theorem sizeLimit_cases (v : Option Value) :
    SizeOverflows v ∧ sizeLimit v = .error .overflow ∨
      ¬ SizeOverflows v ∧ exists w q, sizeLimit v = .ok w ∧ Quantity.ofValue? w = some q ∧
        SizeUsable v q := by
  have hten := sizeUsable_ofQuotient v (n := 10) (by decide)
  have hone := sizeUsable_ofQuotient v (n := 1) (by decide)
  have hint : forall n x, 0 < n -> Binary64.ofInt? n = some x ->
      x.negative = false ∧ x.isZero = false := fun _ _ hn => Binary64.positive_of_ofInt? hn
  unfold SizeOverflows sizeLimit
  -- a name for the conversion, since it cannot be computed for an unknown integer
  obtain ⟨convert, hconvert⟩ : exists convert, convert = Binary64.ofInt? := ⟨_, rfl⟩
  rw [← hconvert] at hint ⊢
  split
  · rename_i hnone
    refine Or.inr ⟨?_, _, _, rfl, rfl, hten⟩
    rintro ⟨n, rfl, _, _⟩
    cases hnone
  · rename_i q hq
    rcases Option.bind_eq_some_iff.mp hq with ⟨w, rfl, hw⟩
    split
    · rename_i hsmall
      refine Or.inr ⟨?_, _, _, rfl, rfl, hten⟩
      rintro ⟨n, hn, hpos, _⟩
      cases hn
      cases hw
      exact absurd (of_decide_eq_true hsmall) (Int.not_le.mpr hpos)
    · rename_i hlarge
      cases w with
      | bool b =>
          cases hw
          refine Or.inr ⟨?_, _, _, rfl, rfl, hone⟩
          rintro ⟨n, hn, _, _⟩
          cases hn
      | number n =>
          cases hw
          cases n with
          | int n =>
              have hpos : 0 < n := by
                apply Int.not_le.mp
                exact fun hle => hlarge (decide_eq_true hle)
              cases hx : convert n with
              | none => exact Or.inl ⟨⟨n, rfl, hpos, hx⟩, by simp only [hx]⟩
              | some x =>
                  rcases hint n x hpos hx with ⟨hsign, hzero⟩
                  refine Or.inr ⟨?_, _, _, by simp only [hx]; rfl, rfl, .positive hsign hzero⟩
                  rintro ⟨m, hm, _, hnone⟩
                  cases hm
                  cases hx.symm.trans hnone
          | float x =>
              have hlarge' : x.isZero = false ∧ x.negative = false :=
                Bool.or_eq_false_iff.mp (Bool.eq_false_iff.mpr hlarge)
              refine Or.inr ⟨?_, _, _, rfl, rfl, .positive hlarge'.right hlarge'.left⟩
              rintro ⟨n, hn, _, _⟩
              cases hn
      | nan =>
          cases hw
          refine Or.inr ⟨?_, _, _, rfl, rfl, .undefined rfl⟩
          rintro ⟨n, hn, _, _⟩
          cases hn
      | _ => cases hw

/-!
# Files
-/

/-- The object in a file, if it contains one. -/
def data? : SettingsFile -> Option Value
  | .content source =>
      match Json.parse (String.ofList (Text.unifyNewlines source.toList)) with
      | .ok (.object fields) => some (.object fields)
      | _ => none
  | .missing | .directory => none

/-- The size limit in the data is no overflow, and the date can be used. -/
structure Admits (data : Value) : Prop where
  size : ¬ SizeOverflows (setting? data "log" "max_size_mb")
  date : Settings.DateUsable ((setting? data "engine" "current_date").getD .null)

/-- What stops reading settings from data: a size limit that overflows, or else a directory or an
archive that is no location. -/
inductive StopsAt (data : Value) : SettingsFault -> Prop where
  | size : SizeOverflows (setting? data "log" "max_size_mb") -> StopsAt data .overflow
  | directory {fault : SettingsFault} : Admits data ->
      NoLocation ((setting? data "log" "dir").getD .null) fault -> StopsAt data fault
  | archive {fault : SettingsFault} : Admits data ->
      (forall other, ¬ NoLocation ((setting? data "log" "dir").getD .null) other) ->
      NoLocation ((setting? data "archive" "db_path").getD .null) fault -> StopsAt data fault

/-- What stops loading a file: an integer beyond the limit on digits, or what its data has. -/
inductive Stops : SettingsFile -> SettingsFault -> Prop where
  | numeral {source : String} {count : Nat} :
      Json.parse (String.ofList (Text.unifyNewlines source.toList)) =
        .error (.tooManyDigits count) ->
      Stops (.content source) (.numeral count)
  | data {f : SettingsFile} {data : Value} {fault : SettingsFault} : f.data? = some data ->
      StopsAt data fault -> Stops f fault

/-- Settings that can be used: a date in the normal form, a depth limit that is at least one and a
size limit that is positive, or undefined because it is so in the data. -/
structure IsUsable (size : Option Value) (s : Settings) : Prop where
  date : forall t, s.currentDate = some t -> IsTimestamp t
  depth : exists n, s.maxTermDepth.floor? = some n ∧ 1 ≤ n
  size : SizeUsable size s.maxLogSize

section
variable (home : Location) {data : Value}

theorem isUsable_defaults (size : Option Value) : IsUsable size (Settings.defaults home) :=
  ⟨fun t ht => (by cases ht), ⟨EventStore.defaultMaxDepth, rfl, by decide⟩,
    sizeUsable_ofQuotient size (by decide)⟩

theorem settingsOf_of_sizeOverflows (h : SizeOverflows (setting? data "log" "max_size_mb")) :
    settingsOf home data = .error .overflow := by
  rcases sizeLimit_cases (setting? data "log" "max_size_mb") with ⟨_, hsize⟩ | ⟨hsize, _⟩
  · rw [settingsOf, hsize]
    rfl
  · exact absurd h hsize

theorem settingsOf_of_date (hsize : ¬ SizeOverflows (setting? data "log" "max_size_mb"))
    (hdate : ¬ Settings.DateUsable ((setting? data "engine" "current_date").getD .null)) :
    exists reason, settingsOf home data = .error (.timestamp reason) := by
  rcases sizeLimit_cases (setting? data "log" "max_size_mb") with
    ⟨hover, _⟩ | ⟨_, w, q, hw, hq, husable⟩
  · exact absurd hover hsize
  · rcases Settings.readDate_cases ((setting? data "engine" "current_date").getD .null) with
      ⟨_, _, huse, _⟩ | ⟨reason, hread, _⟩
    · exact absurd huse hdate
    · refine ⟨reason, ?_⟩
      rw [settingsOf, hw]
      simp only [Settings.make, hread, bind, Except.bind]

/-- What can be used goes into the settings; only the locations are still to be read. -/
theorem exists_settingsOf_eq (h : Admits data) :
    exists standard, IsUsable (setting? data "log" "max_size_mb") standard ∧
      settingsOf home data = do
        let logDirectory ← Settings.readDirectory home ((setting? data "log" "dir").getD .null)
        let archiveFile ←
          Settings.readArchive home ((setting? data "archive" "db_path").getD .null)
        return { standard with logDirectory := logDirectory, archiveFile := archiveFile } := by
  rcases sizeLimit_cases (setting? data "log" "max_size_mb") with
    ⟨hover, _⟩ | ⟨_, w, size, hw, hsize, husable⟩
  · exact absurd hover h.size
  rcases Settings.readDate_cases ((setting? data "engine" "current_date").getD .null) with
    ⟨date, hdate, _, htimestamp⟩ | ⟨_, _, hunusable⟩
  · rcases depthLimit_positive (setting? data "engine" "max_term_depth") with
      ⟨depth, n, hdepth, hfloor, hn, hless⟩
    refine ⟨{
      Settings.defaults home with
      currentDate := date
      maxTermDepth := depth
      logEnabled := switch (setting? data "log" "enabled") false
      maxLogSize := size
      model := truthyOr (setting? data "llm" "model") (.text LanguageModel.defaultName)
      autoLearn := switch (setting? data "llm" "auto_learn") true },
      ⟨htimestamp, ⟨n, hfloor, hn⟩, husable⟩, ?_⟩
    rw [settingsOf, hw]
    simp only [Settings.make, Settings.readQuantity, hdate, hdepth, hsize, hless,
      husable.isAtMostZero, bind, Except.bind, Bool.false_eq_true, ↓reduceIte]
  · exact absurd h.date hunusable

theorem StopsAt.unique {fault other : SettingsFault} (h : StopsAt data fault)
    (hother : StopsAt data other) : other = fault := by
  cases h with
  | size hsize =>
      cases hother with
      | size _ => rfl
      | directory hadmits _ => exact absurd hsize hadmits.size
      | archive hadmits _ _ => exact absurd hsize hadmits.size
  | directory hadmits hlocation =>
      cases hother with
      | size hsize => exact absurd hsize hadmits.size
      | directory _ hsecond => exact hsecond.unique hlocation
      | archive _ hnone _ => exact absurd hlocation (hnone _)
  | archive hadmits hnone hlocation =>
      cases hother with
      | size hsize => exact absurd hsize hadmits.size
      | directory _ hfirst => exact absurd hfirst (hnone _)
      | archive _ _ hsecond => exact hsecond.unique hlocation

theorem StopsAt.isFatal {fault : SettingsFault} (h : StopsAt data fault) :
    fault = .overflow ∨ fault = .kind ∨ fault = .home := by
  cases h with
  | size _ => exact Or.inl rfl
  | directory _ hlocation => exact Or.inr hlocation.cases
  | archive _ _ hlocation => exact Or.inr hlocation.cases

/-- Data gives settings, or its date cannot be used, or something stops the reading. -/
theorem settingsOf_cases (data : Value) :
    (exists s, settingsOf home data = .ok s ∧ Admits data ∧ (forall fault, ¬ StopsAt data fault) ∧
        IsUsable (setting? data "log" "max_size_mb") s) ∨
      (exists reason, settingsOf home data = .error (.timestamp reason) ∧ ¬ Admits data ∧
        forall fault, ¬ StopsAt data fault) ∨
      exists fault, settingsOf home data = .error fault ∧ StopsAt data fault := by
  by_cases hsize : SizeOverflows (setting? data "log" "max_size_mb")
  · exact Or.inr (Or.inr ⟨_, settingsOf_of_sizeOverflows home hsize, .size hsize⟩)
  by_cases hdate : Settings.DateUsable ((setting? data "engine" "current_date").getD .null)
  · have hadmits : Admits data := ⟨hsize, hdate⟩
    rcases exists_settingsOf_eq home hadmits with ⟨standard, husable, hread⟩
    cases hdirectory : Settings.readDirectory home ((setting? data "log" "dir").getD .null) with
    | error fault =>
        refine Or.inr (Or.inr ⟨fault, ?_, .directory hadmits (Settings.readDirectory_eq_error_iff.mp hdirectory)⟩)
        rw [hread, hdirectory]
        rfl
    | ok directory =>
        have hnone : forall other,
            ¬ NoLocation ((setting? data "log" "dir").getD .null) other := by
          intro other hother
          cases hdirectory.symm.trans (Settings.readDirectory_eq_error_iff.mpr hother)
        cases harchive :
            Settings.readArchive home ((setting? data "archive" "db_path").getD .null) with
        | error fault =>
            refine Or.inr (Or.inr ⟨fault, ?_, .archive hadmits hnone
              (Settings.readArchive_eq_error_iff.mp harchive)⟩)
            rw [hread, hdirectory, harchive]
            rfl
        | ok archive =>
            refine Or.inl ⟨{ standard with logDirectory := directory, archiveFile := archive }, ?_,
              hadmits, ?_, ⟨husable.date, husable.depth, husable.size⟩⟩
            · rw [hread, hdirectory, harchive]
              rfl
            · intro fault hstops
              cases hstops with
              | size hover => exact hsize hover
              | directory _ hlocation => exact hnone _ hlocation
              | archive _ _ hlocation =>
                  cases harchive.symm.trans (Settings.readArchive_eq_error_iff.mpr hlocation)
  · rcases settingsOf_of_date home hsize hdate with ⟨reason, hread⟩
    refine Or.inr (Or.inl ⟨reason, hread, fun hadmits => hdate hadmits.date, ?_⟩)
    intro fault hstops
    cases hstops with
    | size hover => exact hsize hover
    | directory hadmits _ => exact hdate hadmits.date
    | archive hadmits _ _ => exact hdate hadmits.date

end

section
variable (home : Location) (file : String) {f : SettingsFile} {fault : SettingsFault}

theorem load_of_data {data : Value} (h : f.data? = some data) :
    (forall s, settingsOf home data = .ok s -> load home file f = .ok (s, [])) ∧
      (forall reason, settingsOf home data = .error (.timestamp reason) ->
        load home file f = fallBack home (.invalid file (.timestamp reason))) ∧
      forall fault, settingsOf home data = .error fault -> StopsAt data fault ->
        load home file f = .error fault := by
  cases f with
  | missing => cases h
  | directory => cases h
  | content source =>
      simp only [data?] at h
      split at h
      · rename_i fields hparse
        cases h
        refine ⟨?_, ?_, ?_⟩
        · intro s hs
          simp only [load, hparse, hs]
        · intro reason hreason
          simp only [load, hparse, hreason]
        · intro fault hfault hstops
          rcases hstops.isFatal with rfl | rfl | rfl
          · simp only [load, hparse, hfault]
          · simp only [load, hparse, hfault]
          · simp only [load, hparse, hfault]
      · cases h

/-- A file without an object gives the default settings, unless an integer is beyond the limit. -/
theorem load_of_no_data (h : f.data? = none) :
    (exists warnings, load home file f = .ok (Settings.defaults home, warnings) ∧
        forall fault, ¬ f.Stops fault) ∨
      exists count, load home file f = .error (.numeral count) ∧ f.Stops (.numeral count) := by
  cases f with
  | missing =>
      refine Or.inl ⟨_, rfl, ?_⟩
      intro fault hstops
      cases hstops with
      | data hdata _ => cases hdata
  | directory =>
      refine Or.inl ⟨_, rfl, ?_⟩
      intro fault hstops
      cases hstops with
      | data hdata _ => cases hdata
  | content source =>
      cases hparse : Json.parse (String.ofList (Text.unifyNewlines source.toList)) with
      | error reason =>
          cases reason with
          | tooManyDigits count =>
              exact Or.inr ⟨count, by simp only [load, hparse], .numeral hparse⟩
          | malformed reason document position =>
              refine Or.inl ⟨[.json file (.malformed reason document position)],
                by simp only [load, hparse, fallBack], ?_⟩
              intro fault hstops
              cases hstops with
              | numeral hlimit => cases hparse.symm.trans hlimit
              | data hdata _ => cases h.symm.trans hdata
      | ok v =>
          have hwarnings : exists warnings,
              load home file (.content source) = .ok (Settings.defaults home, warnings) := by
            cases v with
            | object fields =>
                simp only [data?, hparse] at h
                cases h
            | _ => exact ⟨[.shape file], by simp only [load, hparse, fallBack]⟩
          refine Or.inl (hwarnings.imp fun warnings hload => ⟨hload, ?_⟩)
          intro fault hstops
          cases hstops with
          | numeral hlimit => cases hparse.symm.trans hlimit
          | data hdata _ => cases h.symm.trans hdata

/-- The size limit in the file, if there is one. -/
def size? (f : SettingsFile) : Option Value :=
  f.data?.bind fun data => setting? data "log" "max_size_mb"

/-- Loading gives settings that can be used, the default ones unless the file has data whose size
and date can be used; or it stops. -/
theorem load_cases (f : SettingsFile) :
    (exists s warnings, load home file f = .ok (s, warnings) ∧ (forall fault, ¬ f.Stops fault) ∧
        IsUsable f.size? s ∧
        ((forall data, f.data? = some data -> ¬ Admits data) -> s = Settings.defaults home)) ∨
      exists fault, load home file f = .error fault ∧ f.Stops fault := by
  cases hdata : f.data? with
  | none =>
      rcases load_of_no_data home file hdata with
        ⟨warnings, hload, hstops⟩ | ⟨count, hload, hstops⟩
      · exact Or.inl ⟨_, warnings, hload, hstops, isUsable_defaults home _, fun _ => rfl⟩
      · exact Or.inr ⟨_, hload, hstops⟩
  | some data =>
      have hsize : f.size? = setting? data "log" "max_size_mb" := by
        rw [size?, hdata]
        rfl
      have hnumeral : forall fault, (forall other, ¬ StopsAt data other) -> ¬ f.Stops fault := by
        intro fault hnone hstops
        cases hstops with
        | numeral hlimit => simp only [data?, hlimit, reduceCtorEq] at hdata
        | data hother hat =>
            cases hdata.symm.trans hother
            exact hnone _ hat
      rcases load_of_data home file hdata with ⟨hok, hdate, hfault⟩
      rw [hsize]
      rcases settingsOf_cases home data with
        ⟨s, hs, hadmits, hnone, husable⟩ | ⟨reason, hs, hadmits, hnone⟩ | ⟨fault, hs, hat⟩
      · exact Or.inl ⟨s, [], hok s hs, fun fault => hnumeral fault hnone, husable,
          fun hnot => absurd hadmits (hnot data rfl)⟩
      · exact Or.inl ⟨_, _, hdate reason hs, fun fault => hnumeral fault hnone,
          isUsable_defaults home _, fun _ => rfl⟩
      · exact Or.inr ⟨fault, hfault fault hs hat, .data hdata hat⟩

theorem Stops.unique {other : SettingsFault} (h : f.Stops fault) (hother : f.Stops other) :
    other = fault := by
  cases h with
  | numeral hlimit =>
      cases hother with
      | numeral hsame =>
          cases hlimit.symm.trans hsame
          rfl
      | data hdata _ => simp only [data?, hlimit, reduceCtorEq] at hdata
  | data hdata hat =>
      cases hother with
      | numeral hlimit => simp only [data?, hlimit, reduceCtorEq] at hdata
      | data hsame hatother =>
          cases hdata.symm.trans hsame
          exact hat.unique hatother

end

end SettingsFile
end EventCalculus
