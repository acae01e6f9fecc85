import EventCalculus.Proofs.MatchedTerms

/-!
# The most general match

A pattern fits a term under some bindings if the bindings make the pattern the term, where every
anonymous variable stands for a term of its own.  Matching succeeds exactly if some bindings that
extend the given ones make the pattern fit, and then what it binds is what all of them bind.
-/

namespace EventCalculus
namespace Term

/-!
# Fitting
-/

mutual

/-- The second term is the first one with any terms in the places of its anonymous variables. -/
inductive Completes : Term -> Term -> Prop where
  | anonymous {v : VariableName} (t : Term) : v.isAnonymous = true -> Completes (.var v) t
  | named (v : VariableName) : Completes (.var v) (.var v)
  | atom (n : AtomName) : Completes (.atom n) (.atom n)
  | number (n : Number) : Completes (.number n) (.number n)
  | text (s : String) : Completes (.text s) (.text s)
  | compound {f : Functor} {ps qs : List Term} :
      CompletesAll ps qs -> Completes (.compound f ps) (.compound f qs)

inductive CompletesAll : List Term -> List Term -> Prop where
  | nil : CompletesAll [] []
  | cons {p q : Term} {ps qs : List Term} :
      Completes p q -> CompletesAll ps qs -> CompletesAll (p :: ps) (q :: qs)

end

/-- The bindings make the pattern the term, up to the kind of numbers, if every anonymous variable
may stand for a term of its own. -/
def Fits (b : Bindings) (p t : Term) : Prop :=
  exists q, p.Completes q ∧ (substitute b q).same t = true

def FitsAll (b : Bindings) (ps ts : List Term) : Prop :=
  exists qs, CompletesAll ps qs ∧ canonicalAll (substituteAll b qs) = canonicalAll ts

variable {b : Bindings}

mutual

/-- There is nothing to replace in a ground term. -/
theorem substitute_of_isGround (b : Bindings) : (t : Term) -> t.isGround = true ->
    substitute b t = t
  | .atom _, _ => rfl
  | .number _, _ => rfl
  | .text _, _ => rfl
  | .var _, h => by cases h
  | .compound f ts, h => by rw [substitute, substituteAll_of_isGroundAll b ts h]

theorem substituteAll_of_isGroundAll (b : Bindings) : (ts : List Term) -> isGroundAll ts = true ->
    substituteAll b ts = ts
  | [], _ => rfl
  | t :: ts, h => by
      simp only [isGroundAll, Bool.and_eq_true] at h
      rw [substituteAll, substitute_of_isGround b t h.left,
        substituteAll_of_isGroundAll b ts h.right]

end

theorem fits_anonymous {v : VariableName} (hv : v.isAnonymous = true) {t : Term}
    (ht : t.isGround = true) : Fits b (.var v) t :=
  ⟨t, .anonymous t hv, by rw [substitute_of_isGround b t ht]; exact same_iff.mpr rfl⟩

/-- A named variable of a pattern fits the terms that are the same as the one it is bound to. -/
theorem fits_named_iff {v : VariableName} (hv : v.isAnonymous = false) {t : Term}
    (ht : t.isGround = true) :
    Fits b (.var v) t ↔ exists u, b.get? v.text = some u ∧ u.same t = true := by
  have hsubstitute : substitute b (.var v) = (b.get? v.text).getD (.var v) := by
    rw [substitute, hv, if_neg Bool.false_ne_true]
  constructor
  · intro h
    rcases h with ⟨q, hq, hsame⟩
    cases hq with
    | anonymous _ hanonymous =>
        rw [hv] at hanonymous
        cases hanonymous
    | named =>
        rw [hsubstitute] at hsame
        cases hbound : b.get? v.text with
        | none =>
            -- a variable that stays in place is no ground term
            rw [hbound] at hsame
            have hground := isGround_eq_of_same hsame
            rw [ht] at hground
            cases hground
        | some u =>
            rw [hbound] at hsame
            exact ⟨u, rfl, hsame⟩
  · intro h
    rcases h with ⟨u, hu, hsame⟩
    refine ⟨.var v, .named v, ?_⟩
    rw [hsubstitute, hu]
    exact hsame

mutual

theorem Completes.refl : (p : Term) -> p.Completes p
  | .atom n => .atom n
  | .number n => .number n
  | .text s => .text s
  | .var v => .named v
  | .compound _ ps => .compound (CompletesAll.refl ps)

theorem CompletesAll.refl : (ps : List Term) -> CompletesAll ps ps
  | [] => .nil
  | p :: ps => .cons (Completes.refl p) (CompletesAll.refl ps)

end

mutual

theorem eq_of_completes : (p q : Term) -> p.isGround = true -> p.Completes q -> q = p
  | .atom _, _, _, h => by cases h; rfl
  | .number _, _, _, h => by cases h; rfl
  | .text _, _, _, h => by cases h; rfl
  | .var _, _, hp, _ => by cases hp
  | .compound f ps, _, hp, h => by
      cases h with
      | @compound _ _ qs hqs => rw [eq_of_completesAll ps qs hp hqs]

theorem eq_of_completesAll : (ps qs : List Term) -> isGroundAll ps = true -> CompletesAll ps qs ->
    qs = ps
  | [], _, _, h => by cases h; rfl
  | p :: ps, _, hp, h => by
      simp only [isGroundAll, Bool.and_eq_true] at hp
      cases h with
      | @cons _ q _ qs hq hqs =>
          rw [eq_of_completes p q hp.left hq, eq_of_completesAll ps qs hp.right hqs]

end

theorem fits_iff_same {p : Term} (hp : p.isGround = true) (t : Term) :
    Fits b p t ↔ p.same t = true := by
  constructor
  · intro h
    rcases h with ⟨q, hq, hsame⟩
    rw [eq_of_completes p q hp hq, substitute_of_isGround b p hp] at hsame
    exact hsame
  · intro h
    exact ⟨p, .refl p, by rw [substitute_of_isGround b p hp]; exact h⟩

theorem fits_compound_iff {f g : Functor} {ps ts : List Term} :
    Fits b (.compound f ps) (.compound g ts) ↔ f = g ∧ FitsAll b ps ts := by
  constructor
  · intro h
    rcases h with ⟨q, hq, hsame⟩
    cases hq with
    | @compound _ _ qs hqs =>
        rw [same_iff] at hsame
        rcases Term.compound.inj hsame with ⟨hfunctor, hargs⟩
        exact ⟨hfunctor, qs, hqs, hargs⟩
  · intro h
    rcases h with ⟨rfl, qs, hqs, hargs⟩
    refine ⟨.compound f qs, .compound hqs, same_iff.mpr ?_⟩
    simp only [substitute, canonical, hargs]

/-- A compound fits only compounds. -/
theorem Fits.exists_compound {f : Functor} {ps : List Term} {t : Term}
    (h : Fits b (.compound f ps) t) : exists g ts, t = .compound g ts := by
  rcases h with ⟨q, hq, hsame⟩
  cases hq with
  | compound _ =>
      rw [same_iff] at hsame
      cases t with
      | compound g ts => exact ⟨g, ts, rfl⟩
      | atom n => cases hsame
      | number n => cases hsame
      | text s => cases hsame
      | var v => cases hsame

theorem fitsAll_nil : FitsAll b [] [] :=
  ⟨[], .nil, rfl⟩

theorem fitsAll_cons_iff {p t : Term} {ps ts : List Term} :
    FitsAll b (p :: ps) (t :: ts) ↔ Fits b p t ∧ FitsAll b ps ts := by
  constructor
  · intro h
    rcases h with ⟨_, hqs, hsame⟩
    cases hqs with
    | @cons _ q _ qs hq hrest =>
        rcases List.cons.inj hsame with ⟨hhead, htail⟩
        exact ⟨⟨q, hq, same_iff.mpr hhead⟩, qs, hrest, htail⟩
  · intro h
    rcases h with ⟨⟨q, hq, hhead⟩, qs, hqs, htail⟩
    refine ⟨q :: qs, .cons hq hqs, ?_⟩
    simp only [substituteAll, canonicalAll, same_iff.mp hhead, htail]

theorem not_fitsAll_nil_cons {t : Term} {ts : List Term} : ¬ FitsAll b [] (t :: ts) := by
  intro h
  rcases h with ⟨qs, hqs, hsame⟩
  cases hqs
  cases hsame

theorem not_fitsAll_cons_nil {p : Term} {ps : List Term} : ¬ FitsAll b (p :: ps) [] := by
  intro h
  rcases h with ⟨qs, hqs, hsame⟩
  cases hqs
  cases hsame

end Term

/-!
# Agreement
-/

namespace Bindings

/-- The second bindings bind all names of the first ones, to terms that are the same up to the kind
of numbers. -/
def AgreesWith (b c : Bindings) : Prop :=
  forall name t, b.get? name = some t -> exists u, c.get? name = some u ∧ t.same u = true

theorem IsKeptBy.agreesWith {b c : Bindings} (h : b.IsKeptBy c) : b.AgreesWith c :=
  fun name t ht => ⟨t, h name t ht, Term.same_iff.mpr rfl⟩

theorem IsKeptBy.agreesWith_of_agreesWith {a b c : Bindings} (hab : a.IsKeptBy b)
    (hbc : b.AgreesWith c) : a.AgreesWith c :=
  fun name t ht => hbc name t (hab name t ht)

theorem AgreesWith.insert {b c : Bindings} (h : b.AgreesWith c) {name : String} {t u : Term}
    (hu : c.get? name = some u) (hsame : t.same u = true) : AgreesWith (b.insert name t) c := by
  intro other x hx
  rw [OrderedMap.get?_insert] at hx
  split at hx
  · rename_i hname
    cases hx
    rw [← hname]
    exact ⟨u, hu, hsame⟩
  · exact h other x hx

end Bindings

namespace Term

/-!
# Matching finds what fits
-/

variable {given b c : Bindings}

theorem exists_bindVariable {v : VariableName} {t : Term} (ht : t.isGround = true)
    (hgiven : given.AgreesWith c) (h : Fits c (.var v) t) :
    exists b, bindVariable v t given = some b ∧ b.AgreesWith c := by
  unfold bindVariable
  cases hv : v.isAnonymous with
  | true => exact ⟨given, rfl, hgiven⟩
  | false =>
      rcases (fits_named_iff hv ht).mp h with ⟨u, hu, hsame⟩
      have hsame' : t.same u = true := same_iff.mpr (same_iff.mp hsame).symm
      cases hbound : given.get? v.text with
      | none =>
          exact ⟨_, rfl, hgiven.insert hu hsame'⟩
      | some x =>
          rcases hgiven v.text x hbound with ⟨y, hy, hxy⟩
          have hxt : x.same t = true := by
            rw [hu] at hy
            cases hy
            exact same_iff.mpr ((same_iff.mp hxy).trans (same_iff.mp hsame))
          exact ⟨given, by simp [hxt], hgiven⟩

theorem fits_of_bindVariable {v : VariableName} {t : Term} (ht : t.isGround = true)
    (h : bindVariable v t given = some b) (hb : b.AgreesWith c) : Fits c (.var v) t := by
  cases hv : v.isAnonymous with
  | true => exact fits_anonymous hv ht
  | false =>
      unfold bindVariable at h
      rw [hv, if_neg Bool.false_ne_true] at h
      rw [fits_named_iff hv ht]
      split at h
      · cases h
        rcases hb v.text t (by rw [OrderedMap.get?_insert, if_pos rfl]) with ⟨u, hu, hsame⟩
        exact ⟨u, hu, same_iff.mpr (same_iff.mp hsame).symm⟩
      · rename_i x hx
        split at h
        · rename_i hsame
          cases h
          rcases hb v.text x hx with ⟨u, hu, hxu⟩
          exact ⟨u, hu, same_iff.mpr ((same_iff.mp hxu).symm.trans (same_iff.mp hsame))⟩
        · cases h

mutual

/-- If some bindings make the pattern fit, matching binds no more than they do. -/
theorem exists_matchFrom_of_fits : (p t : Term) -> (given : Bindings) -> t.isGround = true ->
    given.AgreesWith c -> Fits c p t -> exists b, matchFrom p t given = some b ∧ b.AgreesWith c
  | .var _, _, _, ht, hgiven, h => exists_bindVariable ht hgiven h
  | .atom n, t, given, _, hgiven, h => by
      have hsame := (fits_iff_same (p := .atom n) rfl t).mp h
      exact ⟨given, by rw [matchFrom, if_pos hsame], hgiven⟩
  | .number n, t, given, _, hgiven, h => by
      have hsame := (fits_iff_same (p := .number n) rfl t).mp h
      exact ⟨given, by rw [matchFrom, if_pos hsame], hgiven⟩
  | .text s, t, given, _, hgiven, h => by
      have hsame := (fits_iff_same (p := .text s) rfl t).mp h
      exact ⟨given, by rw [matchFrom, if_pos hsame], hgiven⟩
  | .compound f ps, t, given, ht, hgiven, h => by
      rcases h.exists_compound with ⟨g, ts, rfl⟩
      rcases fits_compound_iff.mp h with ⟨rfl, hargs⟩
      rw [matchFrom, if_pos rfl]
      exact exists_matchAllFrom_of_fitsAll ps ts given ht hgiven hargs

theorem exists_matchAllFrom_of_fitsAll : (ps ts : List Term) -> (given : Bindings) ->
    isGroundAll ts = true -> given.AgreesWith c -> FitsAll c ps ts ->
    exists b, matchAllFrom ps ts given = some b ∧ b.AgreesWith c
  | [], [], given, _, hgiven, _ => ⟨given, rfl, hgiven⟩
  | [], _ :: _, _, _, _, h => absurd h not_fitsAll_nil_cons
  | _ :: _, [], _, _, _, h => absurd h not_fitsAll_cons_nil
  | p :: ps, t :: ts, given, hts, hgiven, h => by
      simp only [isGroundAll, Bool.and_eq_true] at hts
      rcases fitsAll_cons_iff.mp h with ⟨hhead, htail⟩
      rcases exists_matchFrom_of_fits p t given hts.left hgiven hhead with
        ⟨extended, hmatch, hextended⟩
      rw [matchAllFrom, hmatch]
      exact exists_matchAllFrom_of_fitsAll ps ts extended hts.right hextended htail

end

mutual

/-- Bindings that agree with what matching has bound make the pattern fit. -/
theorem fits_of_matchFrom : (p t : Term) -> (given b : Bindings) -> t.isGround = true ->
    matchFrom p t given = some b -> b.AgreesWith c -> Fits c p t
  | .var _, _, _, _, ht, h, hb => fits_of_bindVariable ht h hb
  | .atom n, t, _, _, _, h, _ => by
      simp only [matchFrom, Option.ite_none_right_eq_some] at h
      exact (fits_iff_same (p := .atom n) rfl t).mpr h.left
  | .number n, t, _, _, _, h, _ => by
      simp only [matchFrom, Option.ite_none_right_eq_some] at h
      exact (fits_iff_same (p := .number n) rfl t).mpr h.left
  | .text s, t, _, _, _, h, _ => by
      simp only [matchFrom, Option.ite_none_right_eq_some] at h
      exact (fits_iff_same (p := .text s) rfl t).mpr h.left
  | .compound f ps, .compound g ts, given, b, ht, h, hb => by
      simp only [matchFrom, Option.ite_none_right_eq_some] at h
      exact fits_compound_iff.mpr ⟨h.left, fitsAll_of_matchAllFrom ps ts given b ht h.right hb⟩
  | .compound _ _, .atom _, _, _, _, h, _ => by cases h
  | .compound _ _, .number _, _, _, _, h, _ => by cases h
  | .compound _ _, .text _, _, _, _, h, _ => by cases h
  | .compound _ _, .var _, _, _, _, h, _ => by cases h

theorem fitsAll_of_matchAllFrom : (ps ts : List Term) -> (given b : Bindings) ->
    isGroundAll ts = true -> matchAllFrom ps ts given = some b -> b.AgreesWith c ->
    FitsAll c ps ts
  | [], [], _, _, _, _, _ => fitsAll_nil
  | [], _ :: _, _, _, _, h, _ => by cases h
  | _ :: _, [], _, _, _, h, _ => by cases h
  | p :: ps, t :: ts, given, b, hts, h, hb => by
      simp only [isGroundAll, Bool.and_eq_true] at hts
      rw [matchAllFrom] at h
      split at h
      · rename_i extended hmatch
        -- what the later arguments bind keeps what the first one has bound
        have hkept := isKeptBy_of_matchAllFrom ps ts extended b h
        exact fitsAll_cons_iff.mpr
          ⟨fits_of_matchFrom p t given extended hts.left hmatch (hkept.agreesWith_of_agreesWith hb),
            fitsAll_of_matchAllFrom ps ts extended b hts.right h hb⟩
      · cases h

end

/-!
# What is bound
-/

theorem contains_of_bindVariable {v : VariableName} {t : Term}
    (h : bindVariable v t given = some b) (name : String) :
    b.contains name = true ↔ given.contains name = true ∨ name ∈ occurrences (.var v) := by
  unfold bindVariable at h
  cases hv : v.isAnonymous with
  | true =>
      rw [hv, if_pos rfl] at h
      cases h
      simp [occurrences, hv]
  | false =>
      rw [hv, if_neg Bool.false_ne_true] at h
      simp only [occurrences, hv, Bool.false_eq_true, ↓reduceIte, List.mem_singleton]
      split at h
      · cases h
        rw [OrderedMap.contains_insert, @eq_comm _ v.text]
      · rename_i x hbound
        have hcontains : given.contains v.text = true := by
          rw [OrderedMap.contains, hbound, Option.isSome_some]
        split at h
        · cases h
          exact ⟨Or.inl, fun hname => hname.elim id fun heq => heq ▸ hcontains⟩
        · cases h

mutual

/-- Matching binds the named variables of the pattern to what they are not yet bound to. -/
theorem contains_of_matchFrom : (p t : Term) -> (given b : Bindings) ->
    matchFrom p t given = some b -> (name : String) ->
    (b.contains name = true ↔ given.contains name = true ∨ name ∈ p.occurrences)
  | .var _, _, _, _, h, name => contains_of_bindVariable h name
  | .atom n, t, _, _, h, name => by
      simp only [matchFrom, Option.ite_none_right_eq_some, Option.some.injEq] at h
      simp [occurrences, h.right]
  | .number n, t, _, _, h, name => by
      simp only [matchFrom, Option.ite_none_right_eq_some, Option.some.injEq] at h
      simp [occurrences, h.right]
  | .text s, t, _, _, h, name => by
      simp only [matchFrom, Option.ite_none_right_eq_some, Option.some.injEq] at h
      simp [occurrences, h.right]
  | .compound f ps, .compound g ts, given, b, h, name => by
      simp only [matchFrom, Option.ite_none_right_eq_some] at h
      exact contains_of_matchAllFrom ps ts given b h.right name
  | .compound _ _, .atom _, _, _, h, _ => by cases h
  | .compound _ _, .number _, _, _, h, _ => by cases h
  | .compound _ _, .text _, _, _, h, _ => by cases h
  | .compound _ _, .var _, _, _, h, _ => by cases h

theorem contains_of_matchAllFrom : (ps ts : List Term) -> (given b : Bindings) ->
    matchAllFrom ps ts given = some b -> (name : String) ->
    (b.contains name = true ↔ given.contains name = true ∨ name ∈ occurrencesAll ps)
  | [], [], _, _, h, _ => by
      cases h
      simp [occurrencesAll]
  | [], _ :: _, _, _, h, _ => by cases h
  | _ :: _, [], _, _, h, _ => by cases h
  | p :: ps, t :: ts, given, b, h, name => by
      rw [matchAllFrom] at h
      split at h
      · rename_i extended hmatch
        rw [contains_of_matchAllFrom ps ts extended b h name,
          contains_of_matchFrom p t given extended hmatch name, occurrencesAll, List.mem_append,
          or_assoc]
      · cases h

end

/-!
# Matching is sound, complete and most general
-/

/-- Matching with a ground term succeeds exactly if an extension of the given bindings makes the
pattern fit.  Then it binds the names that were bound and the named variables of the pattern, what
it binds makes the pattern fit, and every extension that does binds the same. -/
theorem matchFrom_most_general (p t : Term) (given : Bindings) (ht : t.isGround = true) :
    ((exists b, matchFrom p t given = some b) ↔ exists c, given.IsKeptBy c ∧ Fits c p t) ∧
    forall b, matchFrom p t given = some b ->
      given.IsKeptBy b ∧ Fits b p t ∧
      (forall name, b.contains name = true ↔
        given.contains name = true ∨ name ∈ p.variableNames) ∧
      forall c, given.IsKeptBy c -> Fits c p t -> b.AgreesWith c := by
  have hsound : forall b, matchFrom p t given = some b -> given.IsKeptBy b ∧ Fits b p t :=
    fun b hmatch => ⟨isKeptBy_of_matchFrom p t given b hmatch,
      fits_of_matchFrom p t given b ht hmatch b.isKeptBy_refl.agreesWith⟩
  constructor
  · constructor
    · intro h
      rcases h with ⟨b, hmatch⟩
      exact ⟨b, hsound b hmatch⟩
    · intro h
      rcases h with ⟨c, hkept, hfits⟩
      rcases exists_matchFrom_of_fits p t given ht hkept.agreesWith hfits with ⟨b, hmatch, _⟩
      exact ⟨b, hmatch⟩
  · intro b hmatch
    refine ⟨(hsound b hmatch).left, (hsound b hmatch).right, ?_, ?_⟩
    · intro name
      rw [contains_of_matchFrom p t given b hmatch name, variableNames, List.mem_eraseDups]
    · intro c hkept hfits
      rcases exists_matchFrom_of_fits p t given ht hkept.agreesWith hfits with
        ⟨found, hfound, hagrees⟩
      rw [hmatch] at hfound
      cases hfound
      exact hagrees

namespace Buyback

def purchase : Functor :=
  ⟨"purchase", by decide +kernel⟩

def anyone : VariableName :=
  ⟨"_", by decide +kernel⟩

def seller : VariableName :=
  ⟨"Seller", by decide +kernel⟩

def price : VariableName :=
  ⟨"Price", by decide +kernel⟩

/-- What somebody buys back, at a price. -/
def wanted : Term :=
  .compound purchase
    [.var seller, .compound purchase [.var anyone, .var seller], .var anyone, .var price]

def sale : Term :=
  .compound purchase
    [.text "ann", .compound purchase [.text "tea", .text "ann"], .number (.int 3),
      .number (.float (Binary64.ofDecimal false 5 0))]

def atPrice (amount : Int) : Bindings :=
  OrderedMap.ofList [(price.text, .number (.int amount))]

end Buyback

open Buyback

/-- A price of five is met by the number five of the other kind, and a price of four is not. -/
theorem matchFrom_most_general_buyback :
    sale.isGround = true ∧
      (exists b, matchFrom wanted sale (atPrice 5) = some b ∧
        (atPrice 5).IsKeptBy b ∧ Fits b wanted sale ∧ b.contains seller.text = true ∧
        forall c, (atPrice 5).IsKeptBy c -> Fits c wanted sale -> b.AgreesWith c) ∧
      ¬ exists c, (atPrice 4).IsKeptBy c ∧ Fits c wanted sale := by
  have hground : sale.isGround = true := by decide
  have hfive := matchFrom_most_general wanted sale (atPrice 5) hground
  have hfour := matchFrom_most_general wanted sale (atPrice 4) hground
  refine ⟨hground, ?_, ?_⟩
  · cases hmatch : matchFrom wanted sale (atPrice 5) with
    | none => exact absurd hmatch (by decide +kernel)
    | some b =>
        rcases hfive.right b hmatch with ⟨hkept, hfits, hnames, hgeneral⟩
        have hseller : seller.text ∈ wanted.variableNames := by decide +kernel
        exact ⟨b, rfl, hkept, hfits, (hnames seller.text).mpr (Or.inr hseller), hgeneral⟩
  · rw [← hfour.left]
    intro h
    rcases h with ⟨b, hmatch⟩
    have hnone : matchFrom wanted sale (atPrice 4) = none := by decide +kernel
    rw [hnone] at hmatch
    cases hmatch

end Term
end EventCalculus
