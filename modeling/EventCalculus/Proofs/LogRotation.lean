import EventCalculus.Audit.Log
import EventCalculus.Proofs.TimestampOrder

/-!
# Lines of audit logs

A log may close its file at any call, and the lines are then spread over many files.  Their names
are in the order of closing, because the clock goes on between two closings.  So the files one
after the other, the closed ones by name, have one line for every call, in the order of the calls.
-/

namespace EventCalculus

/-!
# JSON on one line
-/

/-- A space or a visible character of ASCII. -/
def IsVisible (c : Char) : Prop :=
  ' ' ≤ c ∧ c ≤ '~'

instance (c : Char) : Decidable (IsVisible c) :=
  inferInstanceAs (Decidable (_ ∧ _))

/-- No character is a control character or outside of ASCII. -/
def AllVisible (cs : List Char) : Prop :=
  forall c, c ∈ cs -> IsVisible c

instance (cs : List Char) : Decidable (AllVisible cs) :=
  List.decidableBAll IsVisible cs

namespace AllVisible

theorem nil : AllVisible [] :=
  List.forall_mem_nil _

theorem cons {c : Char} {cs : List Char} (hc : IsVisible c) (h : AllVisible cs) :
    AllVisible (c :: cs) :=
  List.forall_mem_cons.mpr ⟨hc, h⟩

theorem append {xs ys : List Char} (hx : AllVisible xs) (hy : AllVisible ys) :
    AllVisible (xs ++ ys) :=
  List.forall_mem_append.mpr ⟨hx, hy⟩

end AllVisible

theorem isVisible_of_isNumberChar {c : Char} (h : isNumberChar c = true) : IsVisible c := by
  simp only [isNumberChar, Bool.or_eq_true, beq_iff_eq] at h
  rcases h with (((hdigit | rfl) | rfl) | rfl) | rfl
  · rcases Char.isDigit_iff_toNat.mp hdigit with ⟨hlow, hhigh⟩
    exact ⟨Nat.le_trans (by decide : ' '.toNat ≤ '0'.toNat) hlow,
      Nat.le_trans hhigh (by decide : '9'.toNat ≤ '~'.toNat)⟩
  · decide
  · decide
  · decide
  · decide

theorem isVisible_digitChar : forall n, n < 16 -> IsVisible n.digitChar := by
  decide

theorem allVisible_toDigits (n : Nat) : AllVisible (Nat.toDigits 16 n) := by
  induction n using Nat.strongRecOn with
  | ind n ih =>
      by_cases h : n < 16
      · rw [Nat.toDigits_of_lt_base h]
        exact .cons (isVisible_digitChar n h) .nil
      · rw [Nat.toDigits_of_base_le (by decide) (Nat.not_lt.mp h)]
        exact .append (ih (n / 16) (by omega))
          (.cons (isVisible_digitChar _ (Nat.mod_lt n (by decide))) .nil)

namespace Json

theorem allVisible_unitEscape (n : Nat) : AllVisible (unitEscape n) := by
  refine .cons (by decide) (.cons (by decide) (.append ?_ (allVisible_toDigits n)))
  intro c hc
  rw [List.eq_of_mem_replicate hc]
  decide

theorem allVisible_charEscape (c : Char) : AllVisible (charEscape c) := by
  unfold charEscape
  split
  · exact allVisible_unitEscape _
  · exact .append (allVisible_unitEscape _) (allVisible_unitEscape _)

theorem allVisible_writeChar (c : Char) : AllVisible (writeChar c) := by
  unfold writeChar
  split
  case h_8 =>
    split
    · rename_i h
      simp only [Bool.and_eq_true, decide_eq_true_eq] at h
      exact .cons h .nil
    · exact allVisible_charEscape c
  all_goals decide

theorem allVisible_writeText (s : String) : AllVisible (writeText s) := by
  refine .cons (by decide) (.append ?_ (by decide))
  intro d hd
  rcases List.mem_flatMap.mp hd with ⟨c, _, hmem⟩
  exact allVisible_writeChar c d hmem

theorem allVisible_writeNumber (n : Number) : AllVisible (writeNumber n) := by
  cases n with
  | int n =>
      intro c hc
      exact isVisible_of_isNumberChar (Number.isNumberChar_of_mem_chars (n := .int n) rfl hc)
  | float x =>
      simp only [writeNumber]
      split
      · rename_i hfinite
        intro c hc
        exact isVisible_of_isNumberChar (Binary64.isNumberChar_of_mem_chars hfinite hc)
      · split
        · decide
        · decide

mutual

/-- A value of any shape is written without line breaks and in ASCII. -/
theorem allVisible_writeValue (v : Value) : AllVisible (writeValue v) := by
  cases v with
  | null =>
      rw [writeValue]
      decide
  | bool b =>
      rw [writeValue]
      cases b with
      | false => decide
      | true => decide
  | number n =>
      rw [writeValue]
      exact allVisible_writeNumber n
  | nan =>
      rw [writeValue]
      decide
  | text s =>
      rw [writeValue]
      exact allVisible_writeText s
  | list items =>
      rw [writeValue]
      exact .cons (by decide) (.append (allVisible_writeItems items) (by decide))
  | object fields =>
      rw [writeValue]
      exact .cons (by decide) (.append (allVisible_writeFields fields) (by decide))
  | term t =>
      rw [writeValue]
      exact allVisible_writeText _

theorem allVisible_writeItems (items : List Value) : AllVisible (writeItems items) := by
  cases items with
  | nil =>
      rw [writeItems]
      exact .nil
  | cons v rest =>
      cases rest with
      | nil =>
          rw [writeItems]
          exact allVisible_writeValue v
      | cons w rest =>
          rw [writeItems]
          · exact .append (allVisible_writeValue v)
              (.cons (by decide) (.cons (by decide) (allVisible_writeItems (w :: rest))))
          · exact List.cons_ne_nil w rest

theorem allVisible_writeFields (fields : List (String × Value)) :
    AllVisible (writeFields fields) := by
  match fields with
  | [] =>
      rw [writeFields]
      exact .nil
  | [(key, v)] =>
      rw [writeFields]
      exact .append (allVisible_writeText key)
        (.cons (by decide) (.cons (by decide) (allVisible_writeValue v)))
  | (key, v) :: field :: rest =>
      rw [writeFields]
      · exact .append (.append (allVisible_writeText key)
          (.cons (by decide) (.cons (by decide) (allVisible_writeValue v))))
          (.cons (by decide) (.cons (by decide) (allVisible_writeFields (field :: rest))))
      · exact List.cons_ne_nil field rest

end

theorem allVisible_render (v : Value) : AllVisible (render v).toList := by
  rw [render, String.toList_ofList]
  exact allVisible_writeValue v

end Json

/-!
# Clocks that go on
-/

namespace Instant

variable {i j k : Instant}

theorem isBefore_trans (hij : i.isBefore j) (hjk : j.isBefore k) : i.isBefore k :=
  lt_trans (α := List Nat) hij hjk

end Instant

/-- The first readings of a clock are instants that exist, each one later than the one before. -/
structure Advances (clock : Nat -> Instant) (readings : Nat) : Prop where
  real : forall k, 0 < k -> k ≤ readings -> (clock k).IsReal
  later : forall k, 0 < k -> k < readings -> (clock k).isBefore (clock (k + 1))

theorem Advances.isBefore {clock : Nat -> Instant} {readings j k : Nat}
    (h : Advances clock readings) (hj : 0 < j) (hjk : j < k) (hk : k ≤ readings) :
    (clock j).isBefore (clock k) := by
  induction k with
  | zero => cases hjk
  | succ k ih =>
      have hstep : 0 < k -> (clock k).isBefore (clock (k + 1)) := fun hpos => h.later k hpos hk
      rcases Nat.lt_succ_iff_lt_or_eq.mp hjk with hlt | rfl
      · exact Instant.isBefore_trans (ih hlt (Nat.le_of_succ_le hk)) (hstep (Nat.zero_lt_of_lt hlt))
      · exact hstep hj

namespace AuditLog

/-!
# Names of closed files
-/

theorem closedName_chars (i : Instant) : (closedName i).toList =
    "chronicle_".toList ++ (paddedDigits 4 i.date.year ++ (paddedDigits 2 i.date.month ++
      (paddedDigits 2 i.date.day ++ '_' :: (paddedDigits 2 i.hour ++ (paddedDigits 2 i.minute ++
        (paddedDigits 2 i.second ++ '_' :: (paddedDigits 6 i.microsecond ++
          ".jsonl".toList))))))) := by
  simp only [closedName, String.toList_append, String.toList_ofList, List.append_assoc,
    List.cons_append]

/-- A file that is closed later comes later by name. -/
theorem closedName_lt {i j : Instant} (hi : i.IsReal) (hj : j.IsReal) (h : i.isBefore j) :
    closedName i < closedName j := by
  rcases CalendarDate.number_bounds hi.left with ⟨hyear, hmonth, hday⟩
  rcases CalendarDate.number_bounds hj.left with ⟨hyear', hmonth', hday'⟩
  rcases Instant.timeOfDay_bounds hi.right with ⟨hhour, hminute, hsecond, hmicrosecond⟩
  rcases Instant.timeOfDay_bounds hj.right with ⟨hhour', hminute', hsecond', hmicrosecond'⟩
  simp only [Instant.isBefore, Instant.parts, List.cons_lt_cons_iff, List.lt_irrefl, and_false,
    or_false] at h
  rw [String.lt_iff_toList_lt, closedName_chars, closedName_chars]
  apply List.append_left_lt
  apply paddedDigits_append_lt (by decide) hyear hyear'
  refine h.imp_right (And.imp_right fun h => ?_)
  apply paddedDigits_append_lt (by decide) hmonth hmonth'
  refine h.imp_right (And.imp_right fun h => ?_)
  apply paddedDigits_append_lt (by decide) hday hday'
  refine h.imp_right (And.imp_right fun h => List.cons_lt_cons_iff.mpr (Or.inr ⟨rfl, ?_⟩))
  apply paddedDigits_append_lt (by decide) (by omega) (by omega)
  refine h.imp_right (And.imp_right fun h => ?_)
  apply paddedDigits_append_lt (by decide) (by omega) (by omega)
  refine h.imp_right (And.imp_right fun h => ?_)
  apply paddedDigits_append_lt (by decide) (by omega) (by omega)
  refine h.imp_right (And.imp_right fun h => List.cons_lt_cons_iff.mpr (Or.inr ⟨rfl, ?_⟩))
  exact paddedDigits_append_lt (by decide) (by omega) (by omega) (Or.inl h)

theorem closedName_ne_currentName (i : Instant) : closedName i ≠ currentName := by
  intro h
  have hchar := congrArg (fun name : String => name.toList[9]?) h
  simp only [closedName_chars] at hchar
  rw [List.getElem?_append_left (by decide)] at hchar
  exact absurd hchar (by decide)

/-!
# Contents of files
-/

/-- What a file with these lines contains. -/
def content (lines : List String) : String :=
  String.join (lines.map (· ++ "\n"))

theorem content_cons (line : String) (lines : List String) :
    content (line :: lines) = line ++ "\n" ++ content lines := by
  rw [content, List.map_cons, String.join_cons]
  rfl

theorem content_append (xs ys : List String) : content (xs ++ ys) = content xs ++ content ys := by
  rw [content, List.map_append, String.join_append]
  rfl

theorem content_flatMap (files : List ClosedFile) :
    content (files.flatMap ClosedFile.lines) =
      String.join (files.map fun file => content file.lines) := by
  induction files with
  | nil => rfl
  | cons file files ih =>
      rw [List.flatMap_cons, content_append, ih, List.map_cons, String.join_cons]

/-- The size that a log compares with its limit is the size of the file. -/
theorem byteSize_eq (lines : List String) : byteSize lines = (content lines).utf8ByteSize := by
  have hfrom : forall size, lines.foldl (fun size line => size + line.utf8ByteSize + 1) size =
      size + (content lines).utf8ByteSize := by
    induction lines with
    | nil => exact fun size => rfl
    | cons line lines ih =>
        intro size
        have hbreak : "\n".utf8ByteSize = 1 := rfl
        rw [List.foldl_cons, ih, content_cons, String.utf8ByteSize_append,
          String.utf8ByteSize_append, hbreak]
        omega
  rw [byteSize, hfrom, Nat.zero_add]

/-- The closed files in the order of their names. -/
def closedByName (log : AuditLog) : List ClosedFile :=
  log.closed.mergeSort fun a b => decide (a.name ≤ b.name)

/-- The contents of all files, those of the closed ones by name and then the current one. -/
def transcript (log : AuditLog) : String :=
  String.join (log.closedByName.map fun file => content file.lines) ++
    content (log.current.getD [])

/-- The lines of the closed files, the oldest first, and of the current one. -/
def lines (log : AuditLog) : List String :=
  log.closed.flatMap ClosedFile.lines ++ log.current.getD []

/-!
# Calls
-/

end AuditLog

/-- A call of a log: an operation of any name, or one of those that an engine writes. -/
inductive AuditCall where
  | operation (event : Value) (details : List (String × Value))
  | assertion (eventId functor moment : Value)
  | rule (offered source added : Value)
  | query (fluent moment results duration : Value)
  | error (refused message : Value)

/-- The entry that a call makes at an instant. -/
def AuditCall.entry (now : Instant) : AuditCall -> AuditEntry
  | .operation event details => .ofDetails (.text (AuditLog.entryTime now)) event details
  | .assertion eventId functor moment =>
      { timestamp := .text (AuditLog.entryTime now)
        event := .text "event_asserted"
        eventId := eventId
        functor := functor
        moment := moment }
  | .rule offered source added =>
      { timestamp := .text (AuditLog.entryTime now)
        event := .text "rule_registered"
        extra := .object [("rule", offered), ("source", source), ("added", added)] }
  | .query fluent moment results duration =>
      { timestamp := .text (AuditLog.entryTime now)
        event := .text "query"
        fluent := fluent
        moment := moment
        results := results
        duration := duration }
  | .error refused message =>
      { timestamp := .text (AuditLog.entryTime now)
        event := .text "error"
        error := message
        extra := .object [("operation", refused)] }

/-- The line of an entry. -/
def AuditEntry.line (e : AuditEntry) : String :=
  Json.render e.toValue

namespace AuditLog

/-- Makes a call. -/
def perform (log : AuditLog) : AuditCall -> AuditLog
  | .operation event details => log.record event details
  | .assertion eventId functor moment => log.recordAssertion eventId functor moment
  | .rule offered source added => log.recordRule offered source added
  | .query fluent moment results duration => log.recordQuery fluent moment results duration
  | .error refused message => log.recordError refused message

/-- Makes calls one after the other. -/
def performAll (log : AuditLog) (calls : List AuditCall) : AuditLog :=
  calls.foldl perform log

/-- The entries of calls, each at the time that the clock shows when the call is made. -/
def entries (log : AuditLog) : List AuditCall -> List AuditEntry
  | [] => []
  | call :: calls => call.entry log.tick.1 :: entries (log.perform call) calls

/-- Every call reads the clock and writes the line of its entry. -/
theorem perform_eq (log : AuditLog) (call : AuditCall) :
    log.perform call = log.tick.2.writeLine (call.entry log.tick.1).line := by
  cases call with
  | operation event details => rfl
  | assertion eventId functor moment => rfl
  | rule offered source added => rfl
  | query fluent moment results duration => rfl
  | error refused message => rfl

/-!
# One step
-/

/-- Before a line is written the files stay as they are, or the current one has reached the limit
and is closed. -/
theorem rotate_cases (log : AuditLog) :
    log.rotate = log ∨ exists lines, log.current = some lines ∧ log.maxBytes ≤ byteSize lines ∧
      log.rotate =
        { log with
          readings := log.readings + 1
          closed := log.closed ++ [⟨closedName (log.clock (log.readings + 1)), lines⟩]
          current := none } := by
  unfold rotate
  split
  · exact Or.inl rfl
  · rename_i lines hcurrent
    split
    · rename_i hfull
      exact Or.inr ⟨lines, hcurrent, hfull, rfl⟩
    · exact Or.inl rfl

theorem lines_rotate (log : AuditLog) : log.rotate.lines = log.lines := by
  rcases log.rotate_cases with heq | ⟨lines, hcurrent, _, heq⟩
  · rw [heq]
  · rw [heq]
    simp [AuditLog.lines, hcurrent]

theorem lines_writeLine (log : AuditLog) (line : String) :
    (log.writeLine line).lines = log.lines ++ [line] := by
  rw [← log.lines_rotate, AuditLog.lines, AuditLog.lines, List.append_assoc]
  rfl

theorem lines_perform (log : AuditLog) (call : AuditCall) :
    (log.perform call).lines = log.lines ++ [(call.entry log.tick.1).line] := by
  rw [perform_eq, lines_writeLine]
  rfl

/-- The closed files of a log have reached the limit, and their names come from readings of the
clock, each later than the one before. -/
structure ClosedInOrder (log : AuditLog) : Prop where
  names : exists times : List Nat,
    log.closed.map ClosedFile.name = times.map (fun k => closedName (log.clock k)) ∧
      times.Pairwise (· < ·) ∧ forall k, k ∈ times -> 0 < k ∧ k ≤ log.readings
  full : forall file, file ∈ log.closed -> log.maxBytes ≤ byteSize file.lines

theorem closedInOrder_empty (maxBytes : Int) (clock : Nat -> Instant) :
    (empty maxBytes clock).ClosedInOrder := by
  constructor
  case names => exact ⟨[], rfl, .nil, List.forall_mem_nil _⟩
  case full => exact List.forall_mem_nil _

theorem closedInOrder_tick {log : AuditLog} (h : log.ClosedInOrder) :
    log.tick.2.ClosedInOrder := by
  rcases h.names with ⟨times, hnames, hsorted, hbounds⟩
  constructor
  case names =>
    exact ⟨times, hnames, hsorted, fun k hk => ⟨(hbounds k hk).left, (hbounds k hk).right.step⟩⟩
  case full => exact h.full

theorem closedInOrder_rotate {log : AuditLog} (h : log.ClosedInOrder) :
    log.rotate.ClosedInOrder := by
  rcases log.rotate_cases with heq | ⟨lines, _, hfull, heq⟩
  · rw [heq]
    exact h
  · rw [heq]
    rcases h.names with ⟨times, hnames, hsorted, hbounds⟩
    constructor
    case names =>
      refine ⟨times ++ [log.readings + 1], ?_, ?_, ?_⟩
      · rw [List.map_append, List.map_append, hnames]
        rfl
      · refine List.pairwise_append.mpr ⟨hsorted, List.pairwise_singleton _ _, ?_⟩
        intro k hk last hlast
        rw [List.mem_singleton.mp hlast]
        exact Nat.lt_succ_of_le (hbounds k hk).right
      · intro k hk
        rcases List.mem_append.mp hk with hold | hlast
        · exact ⟨(hbounds k hold).left, (hbounds k hold).right.step⟩
        · rw [List.mem_singleton.mp hlast]
          exact ⟨Nat.succ_pos _, Nat.le_refl _⟩
    case full =>
      intro file hfile
      rcases List.mem_append.mp hfile with hold | hlast
      · exact h.full file hold
      · rw [List.mem_singleton.mp hlast]
        exact hfull

theorem closedInOrder_perform {log : AuditLog} (h : log.ClosedInOrder) (call : AuditCall) :
    (log.perform call).ClosedInOrder := by
  rw [perform_eq]
  have hrotated := closedInOrder_rotate (closedInOrder_tick h)
  exact ⟨hrotated.names, hrotated.full⟩

theorem settings_perform (log : AuditLog) (call : AuditCall) :
    (log.perform call).maxBytes = log.maxBytes ∧ (log.perform call).clock = log.clock := by
  rw [perform_eq]
  rcases log.tick.2.rotate_cases with heq | ⟨_, _, _, heq⟩
  · rw [writeLine, heq]
    exact ⟨rfl, rfl⟩
  · rw [writeLine, heq]
    exact ⟨rfl, rfl⟩

theorem readings_perform_le (log : AuditLog) (call : AuditCall) :
    (log.perform call).readings ≤ log.readings + 2 := by
  rw [perform_eq]
  rcases log.tick.2.rotate_cases with heq | ⟨_, _, _, heq⟩
  · rw [writeLine, heq]
    exact Nat.le_succ _
  · rw [writeLine, heq]
    exact Nat.le_refl _

/-!
# Runs
-/

theorem lines_performAll (log : AuditLog) (calls : List AuditCall) :
    (log.performAll calls).lines = log.lines ++ (log.entries calls).map AuditEntry.line := by
  induction calls generalizing log with
  | nil => exact (List.append_nil _).symm
  | cons call calls ih =>
      change ((log.perform call).performAll calls).lines = _
      rw [ih, lines_perform, List.append_assoc]
      rfl

theorem closedInOrder_performAll {log : AuditLog} (h : log.ClosedInOrder)
    (calls : List AuditCall) : (log.performAll calls).ClosedInOrder := by
  induction calls generalizing log with
  | nil => exact h
  | cons call calls ih => exact ih (closedInOrder_perform h call)

theorem settings_performAll (log : AuditLog) (calls : List AuditCall) :
    (log.performAll calls).maxBytes = log.maxBytes ∧
      (log.performAll calls).clock = log.clock := by
  induction calls generalizing log with
  | nil => exact ⟨rfl, rfl⟩
  | cons call calls ih =>
      rcases log.settings_perform call with ⟨hbytes, hclock⟩
      rcases ih (log.perform call) with ⟨hbytes', hclock'⟩
      exact ⟨hbytes'.trans hbytes, hclock'.trans hclock⟩

theorem readings_performAll_le (log : AuditLog) (calls : List AuditCall) :
    (log.performAll calls).readings ≤ log.readings + 2 * calls.length := by
  induction calls generalizing log with
  | nil => exact Nat.le_refl _
  | cons call calls ih =>
      have hstep := log.readings_perform_le call
      have hrun := ih (log.perform call)
      change ((log.perform call).performAll calls).readings ≤ _
      rw [List.length_cons]
      omega

theorem length_entries (log : AuditLog) (calls : List AuditCall) :
    (log.entries calls).length = calls.length := by
  induction calls generalizing log with
  | nil => rfl
  | cons call calls ih => exact congrArg Nat.succ (ih (log.perform call))

/-!
# All files together
-/

theorem ClosedInOrder.pairwise_name_lt {log : AuditLog} (h : log.ClosedInOrder)
    (hclock : Advances log.clock log.readings) :
    (log.closed.map ClosedFile.name).Pairwise (· < ·) := by
  rcases h.names with ⟨times, hnames, hsorted, hbounds⟩
  rw [hnames, List.pairwise_map]
  apply hsorted.imp_of_mem
  intro j k hj hk hlt
  rcases hbounds j hj with ⟨hpos, hle⟩
  rcases hbounds k hk with ⟨hpos', hle'⟩
  exact closedName_lt (hclock.real j hpos hle) (hclock.real k hpos' hle')
    (hclock.isBefore hpos hlt hle')

/-- The order by name is the order of closing. -/
theorem ClosedInOrder.closedByName_eq {log : AuditLog} (h : log.ClosedInOrder)
    (hclock : Advances log.clock log.readings) : log.closedByName = log.closed := by
  apply List.mergeSort_of_pairwise
  apply (List.pairwise_map.mp (h.pairwise_name_lt hclock)).imp
  intro a b hlt
  exact decide_eq_true (le_of_lt hlt)

/-- No two files have one name, so closing a file takes nothing from another one. -/
theorem ClosedInOrder.nodup_names {log : AuditLog} (h : log.ClosedInOrder)
    (hclock : Advances log.clock log.readings) : (log.files.map ClosedFile.name).Nodup := by
  have hclosed : (log.closed.map ClosedFile.name).Nodup :=
    (h.pairwise_name_lt hclock).imp fun hlt => ne_of_lt hlt
  rw [files, List.map_append]
  cases hcurrent : log.current with
  | none => exact hclosed
  | some lines =>
      refine List.nodup_cons.mpr ⟨?_, hclosed⟩
      intro hmem
      rcases h.names with ⟨times, hnames, _, _⟩
      rw [hnames] at hmem
      rcases List.mem_map.mp hmem with ⟨k, _, heq⟩
      exact closedName_ne_currentName _ heq

theorem ClosedInOrder.transcript_eq {log : AuditLog} (h : log.ClosedInOrder)
    (hclock : Advances log.clock log.readings) : log.transcript = content log.lines := by
  rw [transcript, h.closedByName_eq hclock, lines, content_append, content_flatMap]

/-- Whatever the limit and the calls, the files one after the other have one line for every call,
in the order of the calls and each on a single line.  A closed file has reached the limit, and no
two files have one name. -/
theorem transcript_performAll (maxBytes : Int) (clock : Nat -> Instant) (calls : List AuditCall)
    (hclock : Advances clock ((empty maxBytes clock).performAll calls).readings) :
    ((empty maxBytes clock).performAll calls).transcript =
        content (((empty maxBytes clock).entries calls).map AuditEntry.line) ∧
      ((empty maxBytes clock).entries calls).length = calls.length ∧
      (forall e, e ∈ (empty maxBytes clock).entries calls -> AllVisible e.line.toList) ∧
      (forall file, file ∈ ((empty maxBytes clock).performAll calls).closed ->
        maxBytes ≤ (content file.lines).utf8ByteSize) ∧
      (((empty maxBytes clock).performAll calls).files.map ClosedFile.name).Nodup := by
  have horder := closedInOrder_performAll (closedInOrder_empty maxBytes clock) calls
  rcases (empty maxBytes clock).settings_performAll calls with ⟨hbytes, hsame⟩
  have hadvances : Advances ((empty maxBytes clock).performAll calls).clock
      ((empty maxBytes clock).performAll calls).readings := hsame ▸ hclock
  refine ⟨?_, length_entries _ calls, fun e _ => Json.allVisible_render _, ?_,
    horder.nodup_names hadvances⟩
  · rw [horder.transcript_eq hadvances, lines_performAll]
    rfl
  · intro file hfile
    rw [← byteSize_eq]
    have hfull := horder.full file hfile
    rw [hbytes] at hfull
    exact hfull

/-- A clock that goes on by a microsecond for every reading. -/
def microsecondClock (k : Nat) : Instant :=
  ⟨⟨2024, 1, 1⟩, 0, 0, 0, k⟩

theorem advances_microsecondClock {readings : Nat} (h : readings ≤ 999999) :
    Advances microsecondClock readings := by
  constructor
  case real =>
    intro k _ hk
    have hmicrosecond : k ≤ 999999 := Nat.le_trans hk h
    have hdate : CalendarDate.isValid ⟨2024, 1, 1⟩ = true := by decide
    refine ⟨hdate, ?_⟩
    simp [Instant.isTimeOfDay, microsecondClock, hmicrosecond]
  case later =>
    intro k _ _
    simp only [Instant.isBefore, Instant.parts, microsecondClock, List.cons_lt_cons_iff,
      Nat.lt_irrefl, Nat.lt_succ_self, true_and, true_or, or_true]

/-- A rule, a query and an error. -/
def threeCalls : List AuditCall :=
  [
    .rule (.text "initiates(e(S), f(S))") (.text "learned") (.bool false),
    .query (.text "f(ä)") .null (.int 2) (.int 0),
    .error (.text "query") (.text "bad\npattern")]

/-- With a limit of a hundred and fifty bytes the first line fills a file and the second does not. -/
theorem transcript_performAll_threeCalls :
    Advances microsecondClock ((empty 150 microsecondClock).performAll threeCalls).readings ∧
      ((empty 150 microsecondClock).performAll threeCalls).files.map
          (fun file => (file.name, file.lines.length)) =
        [(currentName, 2), ("chronicle_20240101_000000_000003.jsonl", 1)] ∧
      ((empty 150 microsecondClock).performAll threeCalls).transcript =
        content (((empty 150 microsecondClock).entries threeCalls).map AuditEntry.line) := by
  have hclock : Advances microsecondClock
      ((empty 150 microsecondClock).performAll threeCalls).readings :=
    advances_microsecondClock
      (Nat.le_trans (readings_performAll_le _ threeCalls) (by decide))
  exact ⟨hclock, by decide +kernel, (transcript_performAll 150 _ threeCalls hclock).left⟩

end AuditLog
end EventCalculus
