import Mathlib.Computability.Language

/-!
# Patterns

Regular expressions over an alphabet whose symbols are told apart by tests. What a pattern matches is a language (`Pattern.lang`);
whether a text is a match, or begins with one, is computed by derivatives (`accepts_iff`, `acceptsPrefix_iff`). The operators of the
usual syntax (`?`, `+`, `{n}`, `{m,n}`) are defined by the others. How many symbols of a kind a match has is bounded along the pattern,
one rule for each operator (`Counts`).
-/

inductive Pattern (α : Type) where
  | never
  | empty
  | one (test : α → Bool)
  | either (p q : Pattern α)
  | follow (p q : Pattern α)
  | many (p : Pattern α)

namespace Pattern

variable {α : Type}

/-! ## The operators -/

/-- The symbol itself. -/
def symbol [DecidableEq α] (a : α) : Pattern α := one (fun b => decide (b = a))

/-- `p?` -/
def opt (p : Pattern α) : Pattern α := either p empty

/-- `p+` -/
def plus (p : Pattern α) : Pattern α := follow p (many p)

/-- `p{n}` -/
def times (p : Pattern α) : Nat → Pattern α
  | 0 => empty
  | n + 1 => follow p (times p n)

/-- `p{0,n}` -/
def upTo (p : Pattern α) : Nat → Pattern α
  | 0 => empty
  | n + 1 => opt (follow p (upTo p n))

/-- `p{m,n}` -/
def between (p : Pattern α) (m n : Nat) : Pattern α := follow (times p m) (upTo p (n - m))

/-- Patterns, one after another. -/
def sequence : List (Pattern α) → Pattern α
  | [] => empty
  | p :: ps => follow p (sequence ps)

/-! ## Matches -/

/-- The texts that the pattern matches as a whole. -/
def lang : Pattern α → Language α
  | never => 0
  | empty => 1
  | one test => {w | ∃ a, test a = true ∧ w = [a]}
  | either p q => p.lang + q.lang
  | follow p q => p.lang * q.lang
  | many p => KStar.kstar p.lang

variable {p q : Pattern α} {w : List α} {test : α → Bool}

@[simp] theorem mem_never : w ∈ (never : Pattern α).lang ↔ False := Iff.rfl

@[simp] theorem mem_empty : w ∈ (empty : Pattern α).lang ↔ w = [] := Iff.rfl

@[simp] theorem mem_one : w ∈ (one test).lang ↔ ∃ a, test a = true ∧ w = [a] := Iff.rfl

@[simp] theorem mem_either : w ∈ (either p q).lang ↔ w ∈ p.lang ∨ w ∈ q.lang := Iff.rfl

@[simp] theorem mem_follow : w ∈ (follow p q).lang ↔ ∃ u ∈ p.lang, ∃ v ∈ q.lang, u ++ v = w := Language.mem_mul

@[simp] theorem mem_opt : w ∈ (opt p).lang ↔ w ∈ p.lang ∨ w = [] := Iff.rfl

theorem mem_plus : w ∈ (plus p).lang ↔ ∃ u ∈ p.lang, ∃ v ∈ (many p).lang, u ++ v = w := mem_follow

theorem nil_mem_many : [] ∈ (many p).lang := Language.nil_mem_kstar _

/-- A match of a repetition, but for the empty one, begins with a match that is not empty. -/
theorem cons_mem_many {a : α} : a :: w ∈ (many p).lang ↔ ∃ u v, w = u ++ v ∧ a :: u ∈ p.lang ∧ v ∈ (many p).lang := by
  constructor
  · intro h
    obtain ⟨L, hL, hmem⟩ := Language.mem_kstar_iff_exists_nonempty.mp h
    cases L with
    | nil => cases hL
    | cons y L =>
      obtain ⟨hy, hne⟩ := hmem y List.mem_cons_self
      cases y with
      | nil => exact absurd rfl hne
      | cons b u =>
        rw [List.flatten_cons, List.cons_append] at hL
        obtain ⟨rfl, rfl⟩ := List.cons.inj hL
        exact ⟨u, L.flatten, rfl, hy, Language.join_mem_kstar fun z hz => (hmem z (List.mem_cons_of_mem _ hz)).1⟩
  · rintro ⟨u, v, rfl, hu, hv⟩
    obtain ⟨L, rfl, hL⟩ := Language.mem_kstar.mp hv
    refine Language.mem_kstar.mpr ⟨(a :: u) :: L, rfl, ?_⟩
    intro y hy
    rcases List.mem_cons.mp hy with rfl | hy
    · exact hu
    · exact hL y hy

/-- A match of one pattern after another, but for the empty one, begins in the first, or the first matches nothing of it. -/
theorem cons_mem_follow {a : α} :
    a :: w ∈ (follow p q).lang ↔
      (∃ u v, w = u ++ v ∧ a :: u ∈ p.lang ∧ v ∈ q.lang) ∨ ([] ∈ p.lang ∧ a :: w ∈ q.lang) := by
  constructor
  · intro h
    obtain ⟨u, hu, v, hv, hw⟩ := mem_follow.mp h
    cases u with
    | nil => exact Or.inr ⟨hu, hw ▸ hv⟩
    | cons b u =>
      rw [List.cons_append] at hw
      obtain ⟨rfl, rfl⟩ := List.cons.inj hw
      exact Or.inl ⟨u, v, rfl, hu, hv⟩
  · rintro (⟨u, v, rfl, hu, hv⟩ | ⟨hu, hv⟩)
    · exact mem_follow.mpr ⟨a :: u, hu, v, hv, rfl⟩
    · exact mem_follow.mpr ⟨[], hu, a :: w, hv, rfl⟩

theorem mem_symbol [DecidableEq α] {a : α} : w ∈ (symbol a).lang ↔ w = [a] := by
  constructor
  · rintro ⟨b, hb, rfl⟩
    rw [of_decide_eq_true hb]
  · rintro rfl
    exact ⟨a, decide_eq_true rfl, rfl⟩

/-- A repetition of single symbols matches the texts of such symbols. -/
theorem mem_many_one : w ∈ (many (one test)).lang ↔ ∀ a ∈ w, test a = true := by
  induction w with
  | nil => exact ⟨fun _ => List.forall_mem_nil _, fun _ => nil_mem_many⟩
  | cons a w ih =>
    rw [cons_mem_many, List.forall_mem_cons, ← ih]
    constructor
    · rintro ⟨u, v, rfl, ⟨b, hb, hu⟩, hv⟩
      obtain ⟨rfl, rfl⟩ := List.cons.inj hu
      exact ⟨hb, hv⟩
    · rintro ⟨ha, hw⟩
      exact ⟨[], w, rfl, ⟨a, ha, rfl⟩, hw⟩

/-- Exactly so many symbols. -/
theorem mem_times_one {n : Nat} : w ∈ (times (one test) n).lang ↔ w.length = n ∧ ∀ a ∈ w, test a = true := by
  induction n generalizing w with
  | zero =>
    rw [times, mem_empty, List.length_eq_zero_iff]
    constructor
    · rintro rfl
      exact ⟨rfl, List.forall_mem_nil _⟩
    · exact And.left
  | succ n ih =>
    rw [times, mem_follow]
    constructor
    · rintro ⟨_, ⟨a, ha, rfl⟩, v, hv, rfl⟩
      obtain ⟨hlen, hall⟩ := ih.mp hv
      exact ⟨congrArg (· + 1) hlen, List.forall_mem_cons.mpr ⟨ha, hall⟩⟩
    · rintro ⟨hlen, hall⟩
      cases w with
      | nil => cases hlen
      | cons a v =>
        obtain ⟨ha, hv⟩ := List.forall_mem_cons.mp hall
        exact ⟨[a], ⟨a, ha, rfl⟩, v, ih.mpr ⟨Nat.succ.inj hlen, hv⟩, rfl⟩

theorem nil_mem_upTo {n : Nat} : [] ∈ (upTo p n).lang := by
  cases n with
  | zero => exact mem_empty.mpr rfl
  | succ n => exact mem_opt.mpr (Or.inr rfl)

/-! ## Derivatives -/

/-- Whether the empty text is a match. -/
def nullable : Pattern α → Bool
  | never => false
  | empty => true
  | one _ => false
  | either p q => p.nullable || q.nullable
  | follow p q => p.nullable && q.nullable
  | many _ => true

/-- The pattern for what follows a symbol. -/
def deriv (a : α) : Pattern α → Pattern α
  | never => never
  | empty => never
  | one test => if test a then empty else never
  | either p q => either (p.deriv a) (q.deriv a)
  | follow p q => if p.nullable then either (follow (p.deriv a) q) (q.deriv a) else follow (p.deriv a) q
  | many p => follow (p.deriv a) (many p)

/-- Whether the text is a match. -/
def accepts (p : Pattern α) : List α → Bool
  | [] => p.nullable
  | a :: w => (p.deriv a).accepts w

/-- Whether the text begins with a match. -/
def acceptsPrefix (p : Pattern α) : List α → Bool
  | [] => p.nullable
  | a :: w => p.nullable || (p.deriv a).acceptsPrefix w

theorem nullable_iff : p.nullable = true ↔ [] ∈ p.lang := by
  induction p with
  | never => simp [nullable]
  | empty => simp [nullable]
  | one test => simp [nullable]
  | either p q ihp ihq => simp [nullable, ihp, ihq]
  | follow p q ihp ihq => simp [nullable, ihp, ihq]
  | many p ih => exact ⟨fun _ => nil_mem_many, fun _ => rfl⟩

theorem mem_deriv {a : α} : w ∈ (p.deriv a).lang ↔ a :: w ∈ p.lang := by
  induction p generalizing w with
  | never => simp [deriv]
  | empty => simp [deriv]
  | one test =>
    by_cases h : test a = true
    · simp [deriv, h]
    · simp [deriv, h]
  | either p q ihp ihq => simp [deriv, ihp, ihq]
  | follow p q ihp ihq =>
    have hfollow : w ∈ (follow (p.deriv a) q).lang ↔ ∃ u v, w = u ++ v ∧ a :: u ∈ p.lang ∧ v ∈ q.lang := by
      rw [mem_follow]
      constructor
      · rintro ⟨u, hu, v, hv, rfl⟩
        exact ⟨u, v, rfl, ihp.mp hu, hv⟩
      · rintro ⟨u, v, rfl, hu, hv⟩
        exact ⟨u, ihp.mpr hu, v, hv, rfl⟩
    by_cases hnull : p.nullable = true
    · rw [deriv, if_pos hnull, mem_either, hfollow, ihq, cons_mem_follow]
      simp [nullable_iff.mp hnull]
    · rw [deriv, if_neg hnull, hfollow, cons_mem_follow]
      simp [mt nullable_iff.mpr hnull]
  | many p ih =>
    rw [deriv, mem_follow, cons_mem_many]
    constructor
    · rintro ⟨u, hu, v, hv, rfl⟩
      exact ⟨u, v, rfl, ih.mp hu, hv⟩
    · rintro ⟨u, v, rfl, hu, hv⟩
      exact ⟨u, ih.mpr hu, v, hv, rfl⟩

theorem accepts_iff : p.accepts w = true ↔ w ∈ p.lang := by
  induction w generalizing p with
  | nil => exact nullable_iff
  | cons a w ih => exact ih.trans mem_deriv

theorem acceptsPrefix_iff : p.acceptsPrefix w = true ↔ ∃ u v, u ++ v = w ∧ u ∈ p.lang := by
  induction w generalizing p with
  | nil =>
    rw [acceptsPrefix, nullable_iff]
    constructor
    · intro h
      exact ⟨[], [], rfl, h⟩
    · rintro ⟨u, v, huv, hu⟩
      exact (List.append_eq_nil_iff.mp huv).1 ▸ hu
  | cons a w ih =>
    rw [acceptsPrefix, Bool.or_eq_true, nullable_iff, ih]
    constructor
    · rintro (h | ⟨u, v, rfl, hu⟩)
      · exact ⟨[], a :: w, rfl, h⟩
      · exact ⟨a :: u, v, rfl, mem_deriv.mp hu⟩
    · rintro ⟨u, v, huv, hu⟩
      cases u with
      | nil => exact Or.inl hu
      | cons b u =>
        rw [List.cons_append] at huv
        obtain ⟨rfl, rfl⟩ := List.cons.inj huv
        exact Or.inr ⟨u, v, rfl, mem_deriv.mpr hu⟩

/-! ## Counting the symbols of a match -/

/-- Every match has at least `lo` and at most `hi` symbols of a kind. -/
def Counts (kind : α → Bool) (p : Pattern α) (lo hi : Nat) : Prop :=
  ∀ w ∈ p.lang, lo ≤ w.countP kind ∧ w.countP kind ≤ hi

variable {kind : α → Bool} {lo hi lo' hi' : Nat}

theorem Counts.empty : Counts kind (empty : Pattern α) 0 0 := by
  rintro w rfl
  exact ⟨Nat.zero_le _, Nat.le_refl _⟩

/-- A symbol of the kind. -/
theorem Counts.one (h : ∀ a, test a = true → kind a = true) : Counts kind (one test) 1 1 := by
  rintro _ ⟨a, ha, rfl⟩
  rw [List.countP_singleton, if_pos (h a ha)]
  exact ⟨Nat.le_refl _, Nat.le_refl _⟩

/-- A symbol of another kind. -/
theorem Counts.other (h : ∀ a, test a = true → kind a = false) : Counts kind (Pattern.one test) 0 0 := by
  rintro _ ⟨a, ha, rfl⟩
  rw [List.countP_singleton, if_neg (by rw [h a ha]; exact Bool.false_ne_true)]
  exact ⟨Nat.le_refl _, Nat.le_refl _⟩

theorem Counts.follow (hp : Counts kind p lo hi) (hq : Counts kind q lo' hi') :
    Counts kind (Pattern.follow p q) (lo + lo') (hi + hi') := by
  intro w hw
  obtain ⟨u, hu, v, hv, rfl⟩ := mem_follow.mp hw
  rw [List.countP_append]
  exact ⟨Nat.add_le_add (hp u hu).1 (hq v hv).1, Nat.add_le_add (hp u hu).2 (hq v hv).2⟩

theorem Counts.either (hp : Counts kind p lo hi) (hq : Counts kind q lo hi) : Counts kind (Pattern.either p q) lo hi := by
  intro w hw
  rcases mem_either.mp hw with h | h
  · exact hp w h
  · exact hq w h

theorem Counts.mono (hp : Counts kind p lo hi) (hlo : lo' ≤ lo) (hhi : hi ≤ hi') : Counts kind p lo' hi' := by
  intro w hw
  exact ⟨hlo.trans (hp w hw).1, (hp w hw).2.trans hhi⟩

theorem Counts.opt (hp : Counts kind p lo hi) : Counts kind (Pattern.opt p) 0 hi := by
  intro w hw
  rcases mem_opt.mp hw with h | rfl
  · exact ⟨Nat.zero_le _, (hp w h).2⟩
  · exact ⟨Nat.zero_le _, Nat.zero_le _⟩

theorem Counts.times (hp : Counts kind p lo hi) (n : Nat) : Counts kind (Pattern.times p n) (n * lo) (n * hi) := by
  induction n with
  | zero =>
    rw [Nat.zero_mul, Nat.zero_mul]
    exact Counts.empty
  | succ n ih =>
    rw [Nat.succ_mul, Nat.succ_mul, Nat.add_comm _ lo, Nat.add_comm _ hi]
    exact hp.follow ih

theorem Counts.upTo (hp : Counts kind p lo hi) (n : Nat) : Counts kind (Pattern.upTo p n) 0 (n * hi) := by
  induction n with
  | zero =>
    rw [Nat.zero_mul]
    exact Counts.empty
  | succ n ih =>
    rw [Nat.succ_mul, Nat.add_comm _ hi]
    exact (hp.follow ih).opt

theorem Counts.between (hp : Counts kind p lo hi) (m n : Nat) :
    Counts kind (Pattern.between p m n) (m * lo + 0) (m * hi + (n - m) * hi) := (hp.times m).follow (hp.upTo (n - m))

/-- The bounds of patterns that follow one another are added up. -/
theorem Counts.sequence {ps : List (Pattern α)} {bounds : List (Nat × Nat)}
    (h : List.Forall₂ (fun p b => Counts kind p b.1 b.2) ps bounds) :
    Counts kind (Pattern.sequence ps) (bounds.foldr (fun b n => b.1 + n) 0) (bounds.foldr (fun b n => b.2 + n) 0) := by
  induction h with
  | nil => exact Counts.empty
  | cons hp _ ih => exact hp.follow ih

end Pattern
