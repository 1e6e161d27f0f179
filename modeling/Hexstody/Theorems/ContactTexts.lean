import Hexstody.Contacts

/-!
# What the checks of contacts accept

A text passes for an e-mail address exactly if it begins with a local part, an at sign, a host name, a dot and two small letters
(`email_accepted_iff`): what comes after these is not looked at, as the pattern is not anchored where it ends, so whatever is appended to
an accepted address is accepted. A phone number that is accepted has ten to thirteen digits and few other characters, all of them of
the usual ones; ten digits are accepted (`phone_accepted`).
-/

namespace Hexstody

open Pattern

/-! ## E-mail addresses -/

/-- What stands before the at sign: no dot at either end. -/
structure LocalPart (l : List Char) : Prop where
  nonempty : l ≠ []
  chars : ∀ c ∈ l, isDottedLocalChar c = true
  head : l.head? ≠ some '.'
  last : l.getLast? ≠ some '.'

/-- Labels of letters and digits, with a hyphen or a dot between any two. -/
def HostName (h : List Char) : Prop := ∀ l ∈ h.splitOnP isLabelSeparator, l ≠ [] ∧ ∀ c ∈ l, isLabelChar c = true

theorem isLocalChar_iff {c : Char} : isLocalChar c = true ↔ isDottedLocalChar c = true ∧ c ≠ '.' := by
  unfold isDottedLocalChar
  rw [Bool.or_eq_true, beq_iff_eq]
  constructor
  · intro h
    refine ⟨Or.inl h, ?_⟩
    rintro rfl
    exact absurd h (by decide)
  · rintro ⟨h | h, hne⟩
    · exact h
    · exact absurd h hne

theorem isLabelSeparator_eq_false {c : Char} (h : isLabelChar c = true) : isLabelSeparator c = false := by
  rw [Bool.eq_false_iff]
  intro hsep
  unfold isLabelSeparator at hsep
  rw [Bool.or_eq_true, beq_iff_eq, beq_iff_eq] at hsep
  rcases hsep with rfl | rfl
  · exact absurd h (by decide)
  · exact absurd h (by decide)

namespace Email

theorem mem_localPattern {l : List Char} : l ∈ localPattern.lang ↔ LocalPart l := by
  unfold localPattern
  rw [mem_follow]
  constructor
  · rintro ⟨_, ⟨a, ha, rfl⟩, v, hv, rfl⟩
    obtain ⟨had, hane⟩ := isLocalChar_iff.mp ha
    rcases mem_opt.mp hv with hv | rfl
    · obtain ⟨u, hu, _, ⟨b, hb, rfl⟩, rfl⟩ := mem_follow.mp hv
      obtain ⟨hbd, hbne⟩ := isLocalChar_iff.mp hb
      refine ⟨List.cons_ne_nil _ _, ?_, by simpa using hane, ?_⟩
      · intro c hc
        simp only [List.mem_append, List.mem_singleton] at hc
        rcases hc with rfl | hc | rfl
        · exact had
        · exact mem_many_one.mp hu c hc
        · exact hbd
      · rw [← List.append_assoc, List.getLast?_concat]
        simpa using hbne
    · refine ⟨List.cons_ne_nil _ _, ?_, ?_, ?_⟩
      · simpa using had
      · simpa using hane
      · simpa using hane
  · intro h
    obtain ⟨hne, hchars, hhead, hlast⟩ := h
    cases l with
    | nil => exact absurd rfl hne
    | cons a v =>
      have ha : isLocalChar a = true := isLocalChar_iff.mpr ⟨hchars a List.mem_cons_self, by simpa using hhead⟩
      refine ⟨[a], ⟨a, ha, rfl⟩, v, mem_opt.mpr ?_, rfl⟩
      rcases List.eq_nil_or_concat v with rfl | ⟨u, b, rfl⟩
      · exact Or.inr rfl
      · rw [List.concat_eq_append, ← List.cons_append, List.getLast?_concat] at hlast
        have hb : isLocalChar b = true := isLocalChar_iff.mpr ⟨hchars b (by simp), by simpa using hlast⟩
        refine Or.inl (mem_follow.mpr ⟨u, mem_many_one.mpr ?_, [b], ⟨b, hb, rfl⟩, (List.concat_eq_append).symm⟩)
        intro c hc
        exact hchars c (by simp [hc])

/-- What may follow a character of a label: the rest of the label, and other labels. -/
def hostRest : Pattern Char :=
  .follow (.many (.one isLabelChar)) (.many (.follow (.times (.one isLabelSeparator) 1) (.plus (.one isLabelChar))))

theorem mem_plus_one {t : Char → Bool} {q : Pattern Char} {w : List Char} :
    w ∈ (follow (plus (.one t)) q).lang ↔ ∃ a v, w = a :: v ∧ t a = true ∧ v ∈ (follow (many (.one t)) q).lang := by
  constructor
  · intro h
    obtain ⟨u, hu, v, hv, rfl⟩ := mem_follow.mp h
    obtain ⟨_, ⟨a, ha, rfl⟩, u', hu', rfl⟩ := mem_plus.mp hu
    exact ⟨a, u' ++ v, rfl, ha, mem_follow.mpr ⟨u', hu', v, hv, rfl⟩⟩
  · rintro ⟨a, v, rfl, ha, hv⟩
    obtain ⟨u', hu', v', hv', rfl⟩ := mem_follow.mp hv
    exact mem_follow.mpr ⟨a :: u', mem_plus.mpr ⟨[a], ⟨a, ha, rfl⟩, u', hu', rfl⟩, v', hv', rfl⟩

/-- A host name is a character of a label, and what may follow one. -/
theorem mem_hostPattern {h : List Char} : h ∈ hostPattern.lang ↔ ∃ a v, h = a :: v ∧ isLabelChar a = true ∧ v ∈ hostRest.lang :=
  mem_plus_one

/-- After a character of a label: another one, or a separator and then a host name. -/
theorem cons_mem_hostRest {c : Char} {w : List Char} :
    c :: w ∈ hostRest.lang ↔ (isLabelChar c = true ∧ w ∈ hostRest.lang) ∨ (isLabelSeparator c = true ∧ w ∈ hostPattern.lang) := by
  unfold hostRest
  rw [cons_mem_follow]
  constructor
  · rintro (⟨u, v, rfl, hu, hv⟩ | ⟨-, h⟩)
    · obtain ⟨hc, hu⟩ := List.forall_mem_cons.mp (mem_many_one.mp hu)
      exact Or.inl ⟨hc, mem_follow.mpr ⟨u, mem_many_one.mpr hu, v, hv, rfl⟩⟩
    · obtain ⟨u, v, rfl, hu, hv⟩ := cons_mem_many.mp h
      obtain ⟨s, hs, t, ht, hst⟩ := mem_follow.mp hu
      obtain ⟨hlen, hsep⟩ := mem_times_one.mp hs
      obtain ⟨d, rfl⟩ := List.length_eq_one_iff.mp hlen
      obtain ⟨rfl, rfl⟩ := List.cons.inj hst
      exact Or.inr ⟨hsep d List.mem_cons_self, mem_follow.mpr ⟨t, ht, v, hv, rfl⟩⟩
  · rintro (⟨hc, h⟩ | ⟨hc, h⟩)
    · obtain ⟨u, hu, v, hv, rfl⟩ := mem_follow.mp h
      exact Or.inl ⟨u, v, rfl, mem_many_one.mpr (List.forall_mem_cons.mpr ⟨hc, mem_many_one.mp hu⟩), hv⟩
    · obtain ⟨t, ht, v, hv, rfl⟩ := mem_follow.mp h
      refine Or.inr ⟨nil_mem_many, cons_mem_many.mpr ⟨t, v, rfl, mem_follow.mpr ⟨[c], mem_times_one.mpr ⟨rfl, ?_⟩, t, ht, rfl⟩, hv⟩⟩
      simpa using hc

/-- The labels of a text, of which the first may be cut short. -/
theorem mem_hostRest {w : List Char} :
    w ∈ hostRest.lang ↔ ∀ l ls, w.splitOnP isLabelSeparator = l :: ls →
      (∀ c ∈ l, isLabelChar c = true) ∧ ∀ l ∈ ls, l ≠ [] ∧ ∀ c ∈ l, isLabelChar c = true := by
  induction w with
  | nil =>
    refine ⟨fun _ l ls h => ?_, fun _ => mem_follow.mpr ⟨[], nil_mem_many, [], nil_mem_many, rfl⟩⟩
    obtain ⟨rfl, rfl⟩ := List.cons.inj h
    exact ⟨List.forall_mem_nil _, List.forall_mem_nil _⟩
  | cons c w ih =>
    obtain ⟨l, ls, hw⟩ := List.exists_cons_of_ne_nil (List.splitOnP_ne_nil isLabelSeparator w)
    have hrest : w ∈ hostRest.lang ↔ (∀ c ∈ l, isLabelChar c = true) ∧ ∀ l ∈ ls, l ≠ [] ∧ ∀ c ∈ l, isLabelChar c = true := by
      rw [ih]
      constructor
      · intro h
        exact h l ls hw
      · intro h l' ls' hw'
        obtain ⟨rfl, rfl⟩ := List.cons.inj (hw.symm.trans hw')
        exact h
    rw [cons_mem_hostRest, List.splitOnP_cons_eq_if_modifyHead, hw]
    by_cases hsep : isLabelSeparator c = true
    · -- a separator ends the label, and the next one must not be empty
      have hc : isLabelChar c = false := by
        rw [Bool.eq_false_iff]
        intro hc
        rw [isLabelSeparator_eq_false hc] at hsep
        cases hsep
      rw [if_pos hsep]
      constructor
      · rintro (⟨hc', -⟩ | ⟨-, h⟩) l' ls' heq
        · rw [hc] at hc'
          cases hc'
        · obtain ⟨rfl, rfl⟩ := List.cons.inj heq
          refine ⟨List.forall_mem_nil _, ?_⟩
          obtain ⟨a, v, rfl, ha, hv⟩ := mem_hostPattern.mp h
          have hcons := cons_mem_hostRest.mpr (Or.inl ⟨ha, hv⟩)
          obtain ⟨hl, hls⟩ := hrest.mp hcons
          refine List.forall_mem_cons.mpr ⟨⟨?_, hl⟩, hls⟩
          rintro rfl
          rw [List.splitOnP_cons_eq_if_modifyHead, isLabelSeparator_eq_false ha] at hw
          obtain ⟨l', ls', hv'⟩ := List.exists_cons_of_ne_nil (List.splitOnP_ne_nil isLabelSeparator v)
          rw [hv'] at hw
          cases hw
      · intro h
        refine Or.inr ⟨hsep, ?_⟩
        obtain ⟨hl, hls⟩ := List.forall_mem_cons.mp (h [] (l :: ls) rfl).2
        cases w with
        | nil =>
          obtain ⟨rfl, -⟩ := List.cons.inj hw
          exact absurd rfl hl.1
        | cons a v =>
          rcases cons_mem_hostRest.mp (hrest.mpr ⟨hl.2, hls⟩) with ⟨ha, hv⟩ | ⟨ha, -⟩
          · exact mem_hostPattern.mpr ⟨a, v, rfl, ha, hv⟩
          · rw [List.splitOnP_cons_eq_if_modifyHead, if_pos ha] at hw
            exact absurd (List.cons.inj hw).1.symm hl.1
    · rw [if_neg hsep, List.modifyHead_cons, hrest]
      constructor
      · rintro (⟨hc, hl, hls⟩ | ⟨hsep', -⟩) l' ls' heq
        · obtain ⟨rfl, rfl⟩ := List.cons.inj heq
          exact ⟨List.forall_mem_cons.mpr ⟨hc, hl⟩, hls⟩
        · exact absurd hsep' hsep
      · intro h
        obtain ⟨hl, hls⟩ := h (c :: l) ls rfl
        obtain ⟨hc, hl⟩ := List.forall_mem_cons.mp hl
        exact Or.inl ⟨hc, hl, hls⟩

theorem mem_hostPattern_iff {h : List Char} : h ∈ hostPattern.lang ↔ HostName h := by
  unfold HostName
  cases h with
  | nil =>
    rw [mem_hostPattern]
    constructor
    · rintro ⟨a, v, h, -⟩
      cases h
    · intro h
      exact absurd rfl (h [] List.mem_cons_self).1
  | cons a v =>
    obtain ⟨l, ls, hw⟩ := List.exists_cons_of_ne_nil (List.splitOnP_ne_nil isLabelSeparator (a :: v))
    rw [hw, List.forall_mem_cons]
    constructor
    · intro h
      obtain ⟨a', v', heq, ha, hv⟩ := mem_hostPattern.mp h
      obtain ⟨rfl, rfl⟩ := List.cons.inj heq
      obtain ⟨hl, hls⟩ := mem_hostRest.mp (cons_mem_hostRest.mpr (Or.inl ⟨ha, hv⟩)) l ls hw
      refine ⟨⟨?_, hl⟩, hls⟩
      rintro rfl
      rw [List.splitOnP_cons_eq_if_modifyHead, isLabelSeparator_eq_false ha] at hw
      obtain ⟨l', ls', hv'⟩ := List.exists_cons_of_ne_nil (List.splitOnP_ne_nil isLabelSeparator v)
      rw [hv'] at hw
      cases hw
    · rintro ⟨⟨hne, hl⟩, hls⟩
      have hmem : a :: v ∈ hostRest.lang := by
        refine mem_hostRest.mpr ?_
        intro l' ls' hw'
        obtain ⟨rfl, rfl⟩ := List.cons.inj (hw.symm.trans hw')
        exact ⟨hl, hls⟩
      rcases cons_mem_hostRest.mp hmem with ⟨ha, hv⟩ | ⟨ha, -⟩
      · exact mem_hostPattern.mpr ⟨a, v, rfl, ha, hv⟩
      · rw [List.splitOnP_cons_eq_if_modifyHead, if_pos ha] at hw
        exact absurd (List.cons.inj hw).1.symm hne

theorem mem_pattern {w : List Char} :
    w ∈ pattern.lang ↔ ∃ before host tld, LocalPart before ∧ HostName host ∧ tld ∈ (between (.one Char.isLower) 2 6).lang ∧
      w = before ++ '@' :: (host ++ '.' :: tld) := by
  unfold pattern
  simp only [Pattern.sequence, mem_follow, mem_localPattern, mem_symbol, mem_hostPattern_iff, mem_empty]
  constructor
  · rintro ⟨before, hbefore, _, ⟨_, rfl, _, ⟨host, hhost, _, ⟨_, rfl, _, ⟨tld, htld, _, rfl, rfl⟩, rfl⟩, rfl⟩, rfl⟩, rfl⟩
    refine ⟨before, host, tld, hbefore, hhost, htld, ?_⟩
    simp
  · rintro ⟨before, host, tld, hbefore, hhost, htld, rfl⟩
    exact ⟨before, hbefore, _, ⟨['@'], rfl, _, ⟨host, hhost, _, ⟨['.'], rfl, _, ⟨tld, htld, [], rfl, rfl⟩, rfl⟩, rfl⟩, rfl⟩, by simp⟩

end Email

/-- Two small letters are enough for the end of an address, and what follows them does not matter. -/
theorem email_accepted_iff (value : String) :
    (Email.validate value = true ↔
      ∃ before host a b rest, LocalPart before ∧ HostName host ∧ Char.isLower a = true ∧ Char.isLower b = true ∧
        value.toList = before ++ '@' :: (host ++ '.' :: a :: b :: rest)) ∧
    ∀ tail, Email.validate value = true → Email.validate (value ++ tail) = true := by
  constructor
  · unfold Email.validate
    rw [acceptsPrefix_iff]
    constructor
    · rintro ⟨u, v, huv, hu⟩
      obtain ⟨before, host, tld, hbefore, hhost, htld, rfl⟩ := Email.mem_pattern.mp hu
      obtain ⟨s, hs, t, -, rfl⟩ := mem_follow.mp htld
      obtain ⟨hlen, hlower⟩ := mem_times_one.mp hs
      obtain ⟨a, b, rfl⟩ := List.length_eq_two.mp hlen
      refine ⟨before, host, a, b, t ++ v, hbefore, hhost, hlower a (by simp), hlower b (by simp), ?_⟩
      rw [← huv]
      simp
    · rintro ⟨before, host, a, b, rest, hbefore, hhost, ha, hb, h⟩
      refine ⟨before ++ '@' :: (host ++ '.' :: [a, b]), rest, ?_, Email.mem_pattern.mpr ⟨before, host, [a, b], hbefore, hhost, ?_, rfl⟩⟩
      · rw [h]
        simp
      · refine mem_follow.mpr ⟨[a, b], mem_times_one.mpr ⟨rfl, ?_⟩, [], nil_mem_upTo, rfl⟩
        intro c hc
        rcases List.mem_pair.mp hc with rfl | rfl
        · exact ha
        · exact hb
  · intro tail h
    unfold Email.validate at h ⊢
    obtain ⟨u, v, huv, hu⟩ := acceptsPrefix_iff.mp h
    refine acceptsPrefix_iff.mpr ⟨u, v ++ tail.toList, ?_, hu⟩
    rw [String.toList_append, ← huv, List.append_assoc]

/-! ## Phone numbers -/

namespace CharClasses

variable (K : CharClasses)

/-- What a phone number is written with. -/
def phoneChar (c : Char) : Bool := K.decimal c || K.space c || decide (c ∈ ['+', '-', '.', '(', ')'])

theorem decimal_symbol {c : Char} (hc : c ∈ ['+', '-', '.', '(', ')']) : K.decimal c = false := by
  have hascii : c.toNat < 128 ∧ c.isDigit = false := by
    simp only [List.mem_cons, List.not_mem_nil, or_false] at hc
    rcases hc with rfl | rfl | rfl | rfl | rfl <;> decide
  rw [Bool.eq_false_iff]
  intro h
  obtain ⟨hlt, hdigit⟩ := hascii
  rw [K.isDigit_of_decimal c hlt h] at hdigit
  cases hdigit

theorem separator_cases {c : Char} (h : (K.space c || c == '.' || c == '-') = true) : K.space c = true ∨ c = '.' ∨ c = '-' := by
  simpa [or_assoc] using h

theorem not_decimal_separator (c : Char) (h : (K.space c || c == '.' || c == '-') = true) : K.decimal c = false := by
  rcases K.separator_cases h with h | rfl | rfl
  · exact K.not_decimal_of_space c h
  · exact K.decimal_symbol (by decide)
  · exact K.decimal_symbol (by decide)

theorem phoneChar_separator {c : Char} (h : (K.space c || c == '.' || c == '-') = true) : K.phoneChar c = true := by
  rcases K.separator_cases h with h | rfl | rfl
  · simp [phoneChar, h]
  · simp [phoneChar]
  · simp [phoneChar]

end CharClasses

namespace PhoneNumber

variable {K : CharClasses} {kind : Char → Bool} {a b : Nat}

/-- Ten to thirteen digits, and at most ten other characters. -/
theorem counts_pattern (hdigit : Counts kind (digit K) a a) (hone : Counts kind (symbol '1') a a)
    (hsymbol : ∀ c ∈ ['+', '-', '.', '(', ')'], Counts kind (symbol c) b b) (hspace : Counts kind (.one K.space) b b)
    (hsep : Counts kind (.one fun c => K.space c || c == '.' || c == '-') b b) :
    Counts kind (pattern K) (10 * a) (13 * a + 10 * b) := by
  have hbeginning : List.Forall₂ (fun p (r : Nat × Nat) => Counts kind p r.1 r.2) (beginning K)
      [(0, b + (1 * a + (2 - 1) * a + (b + 0))), (0, a), (0, b), (0, b), (0, b), (0, b), (3 * a, 3 * a), (0, b), (0, b), (3 * a, 3 * a),
        (0, b)] := by
    have hcode := (hsymbol '+' (by decide)).follow ((hdigit.between 1 2).follow (hspace.opt.follow Counts.empty))
    exact .cons hcode.opt <| .cons hone.opt <| .cons (hsymbol '-' (by decide)).opt <| .cons (hsymbol '.' (by decide)).opt <|
      .cons hspace.opt <| .cons (hsymbol '(' (by decide)).opt <| .cons (hdigit.times 3) <| .cons (hsymbol ')' (by decide)).opt <|
      .cons hsep.opt <| .cons (hdigit.times 3) <| .cons hsep.opt .nil
  refine Counts.either ?_ ?_
  · have hrest := List.Forall₂.cons (R := fun p (r : Nat × Nat) => Counts kind p r.1 r.2) (b := (4 * a, 4 * a)) (hdigit.times 4) .nil
    refine (Counts.sequence (List.rel_append hbeginning hrest)).mono ?_ ?_
    · simp
      omega
    · simp
      omega
  · have hrest : List.Forall₂ (fun p (r : Nat × Nat) => Counts kind p r.1 r.2) [.times (digit K) 2, separator K, .times (digit K) 2]
        [(2 * a, 2 * a), (0, b), (2 * a, 2 * a)] := .cons (hdigit.times 2) (.cons hsep.opt (.cons (hdigit.times 2) .nil))
    refine (Counts.sequence (List.rel_append hbeginning hrest)).mono ?_ ?_
    · simp
      omega
    · simp
      omega

/-- The optional parts may all be absent, so ten digits are enough. -/
theorem digits_mem_pattern {w : List Char} (hlen : w.length = 10) (hw : ∀ c ∈ w, K.decimal c = true) : w ∈ (pattern K).lang := by
  have htimes : ∀ {u : List Char} {n}, u.length = n → (∀ c ∈ u, c ∈ w) → u ∈ (times (digit K) n).lang := by
    intro u n hu hsub
    exact mem_times_one.mpr ⟨hu, fun c hc => hw c (hsub c hc)⟩
  have hskip : ∀ {p : Pattern Char} {ps u}, u ∈ (sequence ps).lang → u ∈ (sequence (opt p :: ps)).lang := by
    intro p ps u hu
    exact mem_follow.mpr ⟨[], mem_opt.mpr (Or.inr rfl), u, hu, rfl⟩
  refine mem_either.mpr (Or.inl ?_)
  refine hskip (hskip (hskip (hskip (hskip (hskip ?_)))))
  refine mem_follow.mpr ⟨w.take 3, htimes (by simp [hlen]) (fun c => List.mem_of_mem_take), w.drop 3, ?_, List.take_append_drop 3 w⟩
  refine hskip (hskip ?_)
  refine mem_follow.mpr ⟨(w.drop 3).take 3, htimes (by simp [hlen]) ?_, (w.drop 3).drop 3, ?_, List.take_append_drop 3 _⟩
  · intro c hc
    exact List.mem_of_mem_drop (List.mem_of_mem_take hc)
  · refine hskip (mem_follow.mpr ⟨(w.drop 3).drop 3, htimes (by simp [hlen]) ?_, [], rfl, List.append_nil _⟩)
    intro c hc
    exact List.mem_of_mem_drop (List.mem_of_mem_drop hc)

end PhoneNumber

/-- Between ten digits and twenty-three characters, thirteen digits among them. -/
theorem phone_accepted (K : CharClasses) (value : String) :
    (PhoneNumber.validate K value = true →
      10 ≤ value.toList.countP K.decimal ∧ value.toList.countP K.decimal ≤ 13 ∧ value.toList.length ≤ 23 ∧
        ∀ c ∈ value.toList, K.decimal c = true ∨ K.space c = true ∨ c ∈ ['+', '-', '.', '(', ')']) ∧
    (value.toList.length = 10 ∧ (∀ c ∈ value.toList, K.decimal c = true) → PhoneNumber.validate K value = true) := by
  unfold PhoneNumber.validate
  rw [accepts_iff]
  constructor
  · intro h
    have hdigits : Counts K.decimal (PhoneNumber.pattern K) (10 * 1) (13 * 1 + 10 * 0) := PhoneNumber.counts_pattern
      (Counts.one fun _ hc => hc)
      (Counts.one fun c hc => of_decide_eq_true hc ▸ K.decimal_of_isDigit '1' (by decide))
      (fun c hc => Counts.other fun d hd => of_decide_eq_true hd ▸ K.decimal_symbol hc) (Counts.other K.not_decimal_of_space)
      (Counts.other K.not_decimal_separator)
    have hlength : Counts (fun _ => true) (PhoneNumber.pattern K) (10 * 1) (13 * 1 + 10 * 1) := PhoneNumber.counts_pattern
      (Counts.one fun _ _ => rfl) (Counts.one fun _ _ => rfl) (fun _ _ => Counts.one fun _ _ => rfl) (Counts.one fun _ _ => rfl)
      (Counts.one fun _ _ => rfl)
    have hother : Counts (fun c => !K.phoneChar c) (PhoneNumber.pattern K) (10 * 0) (13 * 0 + 10 * 0) := PhoneNumber.counts_pattern
      (Counts.other fun c hc => by simp [CharClasses.phoneChar, hc])
      (Counts.other fun c hc => by simp [CharClasses.phoneChar, of_decide_eq_true hc, K.decimal_of_isDigit '1' (by decide)])
      (fun c hc => Counts.other fun d hd => by simp [CharClasses.phoneChar, of_decide_eq_true hd, hc])
      (Counts.other fun c hc => by simp [CharClasses.phoneChar, hc]) (Counts.other fun c hc => by simp [K.phoneChar_separator hc])
    have hchars := List.countP_eq_zero.mp (Nat.le_zero.mp (hother _ h).2)
    refine ⟨(hdigits _ h).1, (hdigits _ h).2, ?_, ?_⟩
    · have := (hlength _ h).2
      rwa [List.countP_true] at this
    · intro c hc
      have hphone : K.phoneChar c = true := by simpa using hchars c hc
      simpa [CharClasses.phoneChar, or_assoc] using hphone
  · rintro ⟨hlen, hdec⟩
    exact PhoneNumber.digits_mem_pattern hlen hdec

/-- A number with symbols between its digits is accepted, and it has eleven of them; so is one of ten digits. -/
theorem phone_accepted_both :
    PhoneNumber.validate .ascii "+7 (912) 345-67-89" = true ∧
      "+7 (912) 345-67-89".toList.countP CharClasses.ascii.decimal ≤ 13 ∧ PhoneNumber.validate .ascii "9123456789" = true := by
  have hsymbols : PhoneNumber.validate .ascii "+7 (912) 345-67-89" = true := by decide
  have hdigits : "9123456789".toList.all CharClasses.ascii.decimal = true := by decide
  exact ⟨hsymbols, ((phone_accepted .ascii _).1 hsymbols).2.1, (phone_accepted .ascii _).2 ⟨by decide, List.all_eq_true.mp hdigits⟩⟩

end Hexstody
