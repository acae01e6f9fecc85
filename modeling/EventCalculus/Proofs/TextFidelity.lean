import EventCalculus.Proofs.SurfaceReading

/-!
# Which terms survive their texts

A term is read back from its text as the same term if and only if none of its
parts is of a kind that the text cannot show: a name that ends in a line feed, or
a floating point number that is infinite or shows an exponent.  One such part
anywhere breaks the whole term.
-/

namespace EventCalculus
namespace Term

mutual

/-- The term and its parts. -/
def subterms : Term -> List Term
  | .compound f args => .compound f args :: subtermsAll args
  | t => [t]

def subtermsAll : List Term -> List Term
  | [] => []
  | t :: ts => subterms t ++ subtermsAll ts

end

/-- No integer of the term has more digits than an integer may be read with. -/
def HasShortIntegers (t : Term) : Prop :=
  forall n, .number (.int n) ∈ t.subterms ->
    (Nat.toDigits 10 n.natAbs).length ≤ Numeral.digitLimit

/-- Nothing in the term is lost in its text. -/
structure KeepsInText (t : Term) : Prop where
  functorName : forall f args, .compound f args ∈ t.subterms -> ¬ EndsInLineFeed f.text
  variableName : forall v, .var v ∈ t.subterms -> ¬ EndsInLineFeed v.text
  atomName : forall n, .atom n ∈ t.subterms -> ¬ IsWordWithLineFeed n.text
  float : forall x, .number (.float x) ∈ t.subterms -> x.isFinite = true ∧ 'e' ∉ x.chars

/-- What `KeepsInText` asks of one part, whatever its arguments are. -/
def KeepsItself : Term -> Prop
  | .atom n => ¬ IsWordWithLineFeed n.text
  | .number (.int _) => True
  | .number (.float x) => x.isFinite = true ∧ 'e' ∉ x.chars
  | .text _ => True
  | .var v => ¬ EndsInLineFeed v.text
  | .compound f _ => ¬ EndsInLineFeed f.text

theorem keepsInText_iff (t : Term) :
    t.KeepsInText ↔ forall s, s ∈ t.subterms -> s.KeepsItself := by
  constructor
  · intro h s hs
    cases s with
    | atom n => exact h.atomName n hs
    | number n =>
        cases n with
        | int n => trivial
        | float x => exact h.float x hs
    | text s => trivial
    | var v => exact h.variableName v hs
    | compound f args => exact h.functorName f args hs
  · intro h
    constructor
    case functorName =>
      intro f args hmem
      exact h _ hmem
    case variableName =>
      intro v hmem
      exact h _ hmem
    case atomName =>
      intro n hmem
      exact h _ hmem
    case float =>
      intro x hmem
      exact h _ hmem

theorem atomReading_eq_iff (n : AtomName) : atomReading n = n ↔ ¬ IsWordWithLineFeed n.text := by
  unfold atomReading
  split
  · rename_i hplain
    exact AtomName.stem_eq_iff hplain
  · rename_i hplain
    constructor
    · intro _ hword
      exact hplain (AtomName.isPlain_of_isWordWithLineFeed hword)
    · intro _
      rfl

/-!
# A term without such parts
-/

mutual

theorem reading?_of_keepsItself : (t : Term) -> t.HasShortIntegers ->
    (forall s, s ∈ t.subterms -> s.KeepsItself) -> t.reading? = some t
  | .atom n, _, h => by
      have hatom : ¬ IsWordWithLineFeed n.text := h (.atom n) List.mem_cons_self
      rw [reading?, (atomReading_eq_iff n).mpr hatom]
  | .text s, _, _ => rfl
  | .var v, _, h => by
      have hvariable : ¬ EndsInLineFeed v.text := h (.var v) List.mem_cons_self
      rw [reading?, v.stem_eq_iff.mpr hvariable]
  | .number (.int n), hshort, _ => by
      have hdigits := hshort n List.mem_cons_self
      simp [reading?, numberReading?, hdigits]
  | .number (.float x), _, h => by
      have hfloat : x.isFinite = true ∧ 'e' ∉ x.chars :=
        h (.number (.float x)) List.mem_cons_self
      simp [reading?, numberReading?, hfloat.left, hfloat.right]
  | .compound f args, hshort, h => by
      have hfunctor : ¬ EndsInLineFeed f.text := h (.compound f args) List.mem_cons_self
      have hargs := readingAll?_of_keepsItself args
        (fun n hn => hshort n (List.mem_cons_of_mem _ hn))
        (fun s hs => h s (List.mem_cons_of_mem _ hs))
      rw [reading?, hargs, f.stem_eq_iff.mpr hfunctor, Option.map_some]

theorem readingAll?_of_keepsItself : (ts : List Term) ->
    (forall n, .number (.int n) ∈ subtermsAll ts ->
      (Nat.toDigits 10 n.natAbs).length ≤ Numeral.digitLimit) ->
    (forall s, s ∈ subtermsAll ts -> s.KeepsItself) -> readingAll? ts = some ts
  | [], _, _ => rfl
  | t :: ts, hshort, h => by
      have hhead := reading?_of_keepsItself t
        (fun n hn => hshort n (List.mem_append_left _ hn))
        (fun s hs => h s (List.mem_append_left _ hs))
      have htail := readingAll?_of_keepsItself ts
        (fun n hn => hshort n (List.mem_append_right _ hn))
        (fun s hs => h s (List.mem_append_right _ hs))
      rw [readingAll?, hhead, htail, Option.bind_some, Option.map_some]

end

/-!
# A term with such a part

The reading of a part that is not kept differs from the part, and a compound can
only be the same if its functor and all of its arguments are.
-/

theorem keepsItself_of_numberReading? {n : Number} {u : Term} (h : numberReading? n = some u)
    (hsame : u.canonical = (Term.number n).canonical) : (Term.number n).KeepsItself := by
  cases n with
  | int n => trivial
  | float x =>
      simp only [numberReading?] at h
      cases hfinite : x.isFinite with
      | true =>
          by_cases hscale : 'e' ∈ x.chars
          · simp [hfinite, hscale] at h
          · exact ⟨hfinite, hscale⟩
      | false =>
          cases hnegative : x.negative with
          | true => simp [hfinite, hnegative] at h
          | false =>
              -- infinity is read as an atom, which is no number
              simp only [hfinite, hnegative, Bool.false_eq_true, ↓reduceIte,
                Option.some.injEq] at h
              rw [← h] at hsame
              cases hsame

mutual

theorem keepsItself_of_reading? : (t u : Term) -> t.reading? = some u ->
    u.canonical = t.canonical -> forall s, s ∈ t.subterms -> s.KeepsItself
  | .atom n, u, hreading, hsame, s, hs => by
      cases hreading
      rw [List.mem_singleton.mp hs]
      exact (atomReading_eq_iff n).mp (Term.atom.inj hsame)
  | .text _, _, _, _, s, hs => by
      rw [List.mem_singleton.mp hs]
      trivial
  | .var v, u, hreading, hsame, s, hs => by
      cases hreading
      rw [List.mem_singleton.mp hs]
      exact v.stem_eq_iff.mp (Term.var.inj hsame)
  | .number n, u, hreading, hsame, s, hs => by
      rw [List.mem_singleton.mp hs]
      exact keepsItself_of_numberReading? hreading hsame
  | .compound f args, u, hreading, hsame, s, hs => by
      rcases Option.map_eq_some_iff.mp hreading with ⟨us, hargs, rfl⟩
      rcases Term.compound.inj hsame with ⟨hfunctor, hcanonical⟩
      cases List.mem_cons.mp hs with
      | inl hroot =>
          rw [hroot]
          exact f.stem_eq_iff.mp hfunctor
      | inr hpart => exact keepsItself_of_readingAll? args us hargs hcanonical s hpart

theorem keepsItself_of_readingAll? : (ts us : List Term) -> readingAll? ts = some us ->
    canonicalAll us = canonicalAll ts -> forall s, s ∈ subtermsAll ts -> s.KeepsItself
  | [], _, _, _, _, hs => by
      cases hs
  | t :: ts, us, hreading, hsame, s, hs => by
      rcases Option.bind_eq_some_iff.mp hreading with ⟨u, hhead, hmap⟩
      rcases Option.map_eq_some_iff.mp hmap with ⟨rest, htail, rfl⟩
      rcases List.cons.inj hsame with ⟨hfirst, hrest⟩
      cases List.mem_append.mp hs with
      | inl hleft => exact keepsItself_of_reading? t u hhead hfirst s hleft
      | inr hright => exact keepsItself_of_readingAll? ts rest htail hrest s hright

end

/-!
# The law
-/

mutual

/-- A reading that is the same as the term is the term itself. -/
theorem eq_of_reading? : (t u : Term) -> t.reading? = some u -> u.canonical = t.canonical -> u = t
  | .atom n, u, hreading, hsame => by
      cases hreading
      rw [Term.atom.inj hsame]
  | .text _, u, hreading, _ => by
      cases hreading
      rfl
  | .var v, u, hreading, hsame => by
      cases hreading
      rw [Term.var.inj hsame]
  | .number (.int n), u, hreading, _ => by
      simp only [reading?, numberReading?] at hreading
      by_cases hshort : (Nat.toDigits 10 n.natAbs).length ≤ Numeral.digitLimit
      · simp only [hshort, ↓reduceIte, Option.some.injEq] at hreading
        exact hreading.symm
      · simp [hshort] at hreading
  | .number (.float x), u, hreading, hsame => by
      rw [reading?] at hreading
      have hkept : x.isFinite = true ∧ 'e' ∉ x.chars :=
        keepsItself_of_numberReading? hreading hsame
      simp only [numberReading?, hkept.left, hkept.right, ↓reduceIte, Option.some.injEq] at hreading
      exact hreading.symm
  | .compound f args, u, hreading, hsame => by
      rcases Option.map_eq_some_iff.mp hreading with ⟨us, hargs, rfl⟩
      rcases Term.compound.inj hsame with ⟨hfunctor, hcanonical⟩
      rw [eq_of_readingAll? args us hargs hcanonical, hfunctor]

theorem eq_of_readingAll? : (ts us : List Term) -> readingAll? ts = some us ->
    canonicalAll us = canonicalAll ts -> us = ts
  | [], us, hreading, _ => by
      cases hreading
      rfl
  | t :: ts, us, hreading, hsame => by
      rcases Option.bind_eq_some_iff.mp hreading with ⟨u, hhead, hmap⟩
      rcases Option.map_eq_some_iff.mp hmap with ⟨rest, htail, rfl⟩
      rcases List.cons.inj hsame with ⟨hfirst, hrest⟩
      rw [eq_of_reading? t u hhead hfirst, eq_of_readingAll? ts rest htail hrest]

end

theorem parse_render_eq_ok_iff (t u : Term) : parse t.render = .ok u ↔ t.reading? = some u := by
  rw [← toOption_parse_render]
  cases parse t.render with
  | ok v => simp [Except.toOption]
  | error fault => simp [Except.toOption]

/-- If the text of a term denotes the same term, it denotes the very term. -/
theorem eq_of_parse_render {t u : Term} (hparse : parse t.render = .ok u)
    (hsame : u.same t = true) : u = t :=
  eq_of_reading? t u ((parse_render_eq_ok_iff t u).mp hparse) (same_iff.mp hsame)

/-- The text of a term denotes the same term exactly if the text keeps it, and then it denotes the
very term. -/
theorem parse_render_same_iff_keepsInText {t : Term} (hshort : t.HasShortIntegers) :
    ((exists u, parse t.render = .ok u ∧ u.same t = true) ↔ t.KeepsInText) ∧
      (t.KeepsInText -> parse t.render = .ok t) := by
  have hkeeps : t.KeepsInText -> parse t.render = .ok t := by
    intro h
    apply (parse_render_eq_ok_iff t t).mpr
    exact reading?_of_keepsItself t hshort ((keepsInText_iff t).mp h)
  refine ⟨?_, hkeeps⟩
  constructor
  · intro h
    rcases h with ⟨u, hparse, hsame⟩
    apply (keepsInText_iff t).mpr
    exact keepsItself_of_reading? t u ((parse_render_eq_ok_iff t u).mp hparse) (same_iff.mp hsame)
  · intro h
    exact ⟨t, hkeeps h, same_iff.mpr rfl⟩

/-- A remark with quotes, escapes, a line feed and numbers, about a name. -/
def remark (about : AtomName) : Term :=
  .compound ⟨"remark", by decide +kernel⟩
    [.var ⟨"Who", by decide +kernel⟩, .atom ⟨"it's \"due\"\n", by decide⟩, .text "tab\there\\",
      .number (.float (Binary64.ofDecimal true 25 (-1))), .number (.int (-12)),
      .compound ⟨"about", by decide +kernel⟩
        [.atom about, .compound ⟨"nobody", by decide +kernel⟩ []]]

theorem hasShortIntegers_remark (about : AtomName) : (remark about).HasShortIntegers := by
  intro n hn
  simp only [remark, subterms, subtermsAll, List.append_nil, List.cons_append, List.nil_append,
    List.mem_cons, reduceCtorEq, false_or, Term.number.injEq, Number.int.injEq, List.not_mem_nil,
    or_false] at hn
  rw [hn]
  decide

def soon : AtomName :=
  ⟨"soon\n", by decide⟩

def later : AtomName :=
  ⟨"later\n\n", by decide⟩

/-- A word in front of a line feed breaks the remark, and one in front of two does not. -/
theorem parse_render_same_iff_keepsInText_remark :
    (remark soon).HasShortIntegers ∧ (remark later).HasShortIntegers ∧
      ¬ (exists u, parse (remark soon).render = .ok u ∧ u.same (remark soon) = true) ∧
      (remark later).KeepsInText ∧ parse (remark later).render = .ok (remark later) := by
  have hsoon := hasShortIntegers_remark soon
  have hlater := hasShortIntegers_remark later
  have hlost : ¬ (remark soon).KeepsInText := by
    intro h
    apply h.atomName soon (by decide +kernel)
    exact ⟨'s', ['o', 'o', 'n'], by decide +kernel, rfl, List.all_eq_true.mp (by decide)⟩
  have hparse : parse (remark later).render = .ok (remark later) :=
    (parse_render_eq_ok_iff _ _).mpr (by decide +kernel)
  refine ⟨hsoon, hlater, ?_, ?_, hparse⟩
  · intro h
    exact hlost ((parse_render_same_iff_keepsInText hsoon).left.mp h)
  · exact (parse_render_same_iff_keepsInText hlater).left.mp
      ⟨_, hparse, same_iff.mpr rfl⟩

end Term
end EventCalculus
