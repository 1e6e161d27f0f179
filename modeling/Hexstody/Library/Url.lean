import Mathlib.Data.List.DropRight
import Mathlib.Data.List.Flatten
import Mathlib.Data.List.TakeWhile

/-!
# The path of an http URL

How the path of an `http` URL is read, as bytes: control characters and spaces are removed at the end, tabs and line ends everywhere;
the path ends at the first `?` or `#`; its segments are separated by `/` or `\`; segments of dots are resolved; and a server skips the
empty segments and decodes the others (`segments`). The percent encoding of other bytes on the way is undone by the decoding, and
left out.

A path that is put together from pieces (`joined`) has these pieces for its segments if they are plain (`segments_joined`), and only
then: what is lost in one of the steps is not made up for in another (`plain_of_segments`).
-/

namespace Url

/-! ## Reading -/

/-- `/`, and `\`, which stands for it. -/
def isSeparator (b : UInt8) : Bool := b == 47 || b == 92

/-- `?` and `#`: the query or the fragment begins. -/
def endsPath (b : UInt8) : Bool := b == 63 || b == 35

/-- A tab or a line end. -/
def isTabOrNewline (b : UInt8) : Bool := b == 9 || b == 10 || b == 13

/-- A control character or a space. -/
def isBlank (b : UInt8) : Bool := b ≤ 32

/-- The value of a hexadecimal digit, of either case. -/
def hexValue? (b : UInt8) : Option UInt8 :=
  if 48 ≤ b ∧ b ≤ 57 then some (b - 48)
  else if 97 ≤ b ∧ b ≤ 102 then some (b - 87)
  else if 65 ≤ b ∧ b ≤ 70 then some (b - 55)
  else none

/-- The byte that `%` and two hexadecimal digits stand for. -/
def escape? (c a b : UInt8) : Option UInt8 :=
  if c = 37 then
    match hexValue? a, hexValue? b with
    | some x, some y => some (16 * x + y)
    | _, _ => none
  else none

def percentDecode : List UInt8 → List UInt8
  | c :: a :: b :: bs =>
    match escape? c a b with
    | some x => x :: percentDecode bs
    | none => c :: percentDecode (a :: b :: bs)
  | bs => bs

/-- `.`, which may be written as an escape. -/
def singleDots : List (List UInt8) := [[46], [37, 50, 101], [37, 50, 69]]

/-- `..`, of which each may be written as an escape. -/
def doubleDots : List (List UInt8) := singleDots.flatMap fun d => singleDots.map (d ++ ·)

/-- What is left of the text of a URL. -/
def cleaned (s : List UInt8) : List UInt8 := (s.rdropWhile isBlank).filter (!isTabOrNewline ·)

/-- The path, up to the query or the fragment. -/
def path (s : List UInt8) : List UInt8 := (cleaned s).takeWhile (!endsPath ·)

/-- A segment after those before it; `..` takes one of them away. -/
def resolve (out : List (List UInt8)) (segment : List UInt8) : List (List UInt8) :=
  if doubleDots.contains segment then out.dropLast
  else if singleDots.contains segment then out
  else out ++ [segment]

/-- The segments of a path that begins with a separator. The empty segment that dots leave at the end is skipped in any case. -/
def rawSegments (path : List UInt8) : List (List UInt8) := (path.splitOnP isSeparator).tail.foldl resolve []

/-- The segments as a server has them. -/
def segments (s : List UInt8) : List (List UInt8) := ((rawSegments (path s)).filter (!·.isEmpty)).map percentDecode

/-- A path of pieces. -/
def joined (pieces : List (List UInt8)) : List UInt8 := pieces.flatMap (47 :: ·)

/-! ## Pieces that are read as they are -/

/-- `%` and two hexadecimal digits are somewhere. -/
def HasEscape (s : List UInt8) : Prop := ∃ a b, (hexValue? a).isSome ∧ (hexValue? b).isSome ∧ [37, a, b] <:+: s

/-- Nothing in a piece has a meaning in a URL. -/
structure Plain (s : List UInt8) : Prop where
  bytes : ∀ b ∈ s, isSeparator b = false ∧ endsPath b = false ∧ isTabOrNewline b = false
  escapes : ¬HasEscape s
  dots : s ≠ [46] ∧ s ≠ [46, 46]

/-- No control character or space is at the end. -/
def NoBlankEnd (s : List UInt8) : Prop := ∀ b ∈ s.getLast?, isBlank b = false

/-! ## Percent decoding -/

theorem escape?_eq_none_iff {c a b : UInt8} :
    escape? c a b = none ↔ ¬(c = 37 ∧ (hexValue? a).isSome ∧ (hexValue? b).isSome) := by
  unfold escape?
  by_cases hc : c = 37
  · cases hexValue? a <;> cases hexValue? b <;> simp [hc]
  · simp [hc]

/-- What begins with an escape, or has one behind its first byte. -/
theorem hasEscape_cons_iff {c : UInt8} {s : List UInt8} :
    HasEscape (c :: s) ↔ (∃ a b t, s = a :: b :: t ∧ (escape? c a b).isSome) ∨ HasEscape s := by
  constructor
  · rintro ⟨a, b, ha, hb, hin⟩
    rcases List.infix_cons_iff.mp hin with hpre | hin
    · obtain ⟨t, ht⟩ := hpre
      obtain ⟨rfl, rfl⟩ := List.cons.inj ht
      refine Or.inl ⟨a, b, t, rfl, ?_⟩
      rw [Option.isSome_iff_ne_none, ne_eq, escape?_eq_none_iff]
      exact not_not_intro ⟨rfl, ha, hb⟩
    · exact Or.inr ⟨a, b, ha, hb, hin⟩
  · rintro (⟨a, b, t, rfl, he⟩ | ⟨a, b, ha, hb, hin⟩)
    · rw [Option.isSome_iff_ne_none, ne_eq, escape?_eq_none_iff, not_not] at he
      obtain ⟨rfl, ha, hb⟩ := he
      exact ⟨a, b, ha, hb, List.infix_cons_iff.mpr (Or.inl ⟨t, rfl⟩)⟩
    · exact ⟨a, b, ha, hb, List.infix_cons_iff.mpr (Or.inr hin)⟩

theorem percentDecode_length_le (s : List UInt8) : (percentDecode s).length ≤ s.length := by
  induction s using percentDecode.induct with
  | case1 c a b bs x he ih =>
    simp only [percentDecode, he, List.length_cons]
    omega
  | case2 c a b bs he ih =>
    simp only [percentDecode, he, List.length_cons] at ih ⊢
    omega
  | case3 bs hshort =>
    rw [percentDecode]
    exact hshort

/-- Decoding leaves a text without escapes, and makes every other one shorter. -/
theorem percentDecode_eq_self (s : List UInt8) (h : ¬HasEscape s) : percentDecode s = s := by
  induction s using percentDecode.induct with
  | case1 c a b bs x he ih => exact absurd (hasEscape_cons_iff.mpr (Or.inl ⟨a, b, bs, rfl, he ▸ rfl⟩)) h
  | case2 c a b bs he ih =>
    simp only [percentDecode, he]
    rw [ih fun hs => h (hasEscape_cons_iff.mpr (Or.inr hs))]
  | case3 bs hshort =>
    rw [percentDecode]
    exact hshort

theorem percentDecode_length_lt (s : List UInt8) (h : HasEscape s) : (percentDecode s).length < s.length := by
  induction s using percentDecode.induct with
  | case1 c a b bs x he ih =>
    have hle := percentDecode_length_le bs
    simp only [percentDecode, he, List.length_cons]
    omega
  | case2 c a b bs he ih =>
    rcases hasEscape_cons_iff.mp h with ⟨a', b', t, ht, he'⟩ | hs
    · obtain ⟨rfl, htail⟩ := List.cons.inj ht
      obtain ⟨rfl, -⟩ := List.cons.inj htail
      rw [he] at he'
      cases he'
    · simp only [percentDecode, he, List.length_cons] at ih ⊢
      exact Nat.succ_lt_succ (ih hs)
  | case3 bs hshort =>
    obtain ⟨a, b, -, -, hin⟩ := h
    have hlength : 3 ≤ bs.length := hin.length_le
    rcases bs with _ | ⟨c, _ | ⟨a', _ | ⟨b', t⟩⟩⟩
    · exact absurd hlength (by decide)
    · exact absurd hlength (by simp)
    · exact absurd hlength (by simp)
    · exact absurd rfl (hshort c a' b' t)

/-- Whether there is an escape can be decided: decoding changes a text with one. -/
instance (s : List UInt8) : Decidable (HasEscape s) :=
  decidable_of_iff (percentDecode s ≠ s)
    ⟨fun h => by_contra fun hs => h (percentDecode_eq_self s hs),
      fun h hs => absurd (percentDecode_length_lt s h) (by rw [hs]; exact Nat.lt_irrefl _)⟩

instance (s : List UInt8) : Decidable (Plain s) :=
  decidable_of_iff
    ((s.all fun b => !isSeparator b && !endsPath b && !isTabOrNewline b) = true ∧ ¬HasEscape s ∧ s ≠ [46] ∧ s ≠ [46, 46])
    ⟨fun h => ⟨by simpa [and_assoc] using h.1, h.2.1, h.2.2⟩,
      fun h => ⟨by simpa [and_assoc] using h.bytes, h.escapes, h.dots⟩⟩

instance (s : List UInt8) : Decidable (NoBlankEnd s) := inferInstanceAs (Decidable (∀ b ∈ s.getLast?, isBlank b = false))

theorem percentDecode_ne_nil {s : List UInt8} (h : s ≠ []) : percentDecode s ≠ [] := by
  intro hs
  by_cases he : HasEscape s
  · obtain ⟨a, b, -, -, hin⟩ := he
    have hlength : 3 ≤ s.length := hin.length_le
    rcases s with _ | ⟨c, _ | ⟨a', _ | ⟨b', t⟩⟩⟩
    · exact h rfl
    · exact absurd hlength (by simp)
    · exact absurd hlength (by simp)
    · rw [percentDecode] at hs
      cases hx : escape? c a' b' <;> simp [hx] at hs
  · exact h (percentDecode_eq_self s he ▸ hs)

/-- No segment is empty. -/
theorem ne_nil_of_mem_segments {s p : List UInt8} (h : p ∈ segments s) : p ≠ [] := by
  obtain ⟨q, hq, rfl⟩ := List.mem_map.mp h
  have hne := (List.mem_filter.mp hq).2
  exact percentDecode_ne_nil (by simpa using hne)

/-! ## What a step may lose

Of the bytes that are no separators. -/

/-- The number of bytes that are no separators. -/
def weight (s : List UInt8) : Nat := s.countP (!isSeparator ·)

theorem weight_append (s t : List UInt8) : weight (s ++ t) = weight s + weight t := List.countP_append ..

theorem weight_eq_length {s : List UInt8} (h : ∀ b ∈ s, isSeparator b = false) : weight s = s.length :=
  List.countP_eq_length.mpr fun b hb => by rw [h b hb]; rfl

theorem weight_joined (ps : List (List UInt8)) : weight (joined ps) = weight ps.flatten := by
  induction ps with
  | nil => rfl
  | cons p ps ih =>
    rw [joined, List.flatMap_cons, ← joined, List.flatten_cons, weight_append, weight_append, ih]
    rfl

theorem not_isSeparator_of_isBlank {b : UInt8} (h : isBlank b = true) : isSeparator b = false := by
  have hb : b ≤ 32 := of_decide_eq_true h
  rw [isSeparator, Bool.or_eq_false_iff, beq_eq_false_iff_ne, beq_eq_false_iff_ne]
  constructor
  · rintro rfl
    exact absurd hb (by decide)
  · rintro rfl
    exact absurd hb (by decide)

theorem not_isSeparator_of_isTabOrNewline {b : UInt8} (h : isTabOrNewline b = true) : isSeparator b = false := by
  refine not_isSeparator_of_isBlank ?_
  simp only [isTabOrNewline, Bool.or_eq_true, beq_iff_eq] at h
  obtain (rfl | rfl) | rfl := h <;> rfl

theorem not_isSeparator_of_endsPath {b : UInt8} (h : endsPath b = true) : isSeparator b = false := by
  simp only [endsPath, Bool.or_eq_true, beq_iff_eq] at h
  obtain rfl | rfl := h <;> rfl

/-- Removing bytes that are no separators keeps the weight only if there are none. -/
theorem weight_filter {q : UInt8 → Bool} (hq : ∀ b, q b = true → isSeparator b = false) (s : List UInt8) :
    weight (s.filter (!q ·)) ≤ weight s ∧ (weight (s.filter (!q ·)) = weight s → ∀ b ∈ s, q b = false) := by
  induction s with
  | nil => exact ⟨Nat.le_refl _, fun _ => List.forall_mem_nil _⟩
  | cons b s ih =>
    obtain ⟨hle, heq⟩ := ih
    cases hb : q b with
    | true =>
      have hw : weight (b :: s) = weight s + 1 := List.countP_cons_of_pos (by rw [hq b hb]; rfl)
      have hf : (b :: s).filter (!q ·) = s.filter (!q ·) := List.filter_cons_of_neg (by simp [hb])
      rw [hf, hw]
      exact ⟨by omega, fun h => by omega⟩
    | false =>
      have hf : (b :: s).filter (!q ·) = b :: s.filter (!q ·) := List.filter_cons_of_pos (by simp [hb])
      have hw : ∀ t, weight (b :: t) = weight [b] + weight t := fun t => weight_append [b] t
      rw [hf, hw, hw s]
      refine ⟨Nat.add_le_add_left hle _, fun h => ?_⟩
      exact List.forall_mem_cons.mpr ⟨hb, heq (Nat.add_left_cancel h)⟩

theorem weight_rdropWhile (s : List UInt8) :
    weight (s.rdropWhile isBlank) ≤ weight s ∧ (weight (s.rdropWhile isBlank) = weight s → s.rdropWhile isBlank = s) := by
  have hsplit : s.rdropWhile isBlank ++ s.rtakeWhile isBlank = s := List.rdropWhile_append_rtakeWhile
  have hblank : weight (s.rtakeWhile isBlank) = (s.rtakeWhile isBlank).length :=
    weight_eq_length fun b hb => not_isSeparator_of_isBlank (List.mem_rtakeWhile_imp hb)
  have hw : weight s = weight (s.rdropWhile isBlank) + (s.rtakeWhile isBlank).length := by
    rw [← hblank, ← weight_append, hsplit]
  refine ⟨by omega, fun h => ?_⟩
  have hnil : s.rtakeWhile isBlank = [] := List.length_eq_zero_iff.mp (by omega)
  rw [hnil, List.append_nil] at hsplit
  exact hsplit

theorem weight_path (s : List UInt8) :
    weight (s.takeWhile (!endsPath ·)) ≤ weight s ∧
      (weight (s.takeWhile (!endsPath ·)) = weight s → ∀ b ∈ s, endsPath b = false) := by
  have hsplit := List.takeWhile_append_dropWhile (p := (!endsPath ·)) (l := s)
  have hw : weight s = weight (s.takeWhile (!endsPath ·)) + weight (s.dropWhile (!endsPath ·)) := by
    rw [← weight_append, hsplit]
  refine ⟨by omega, fun h b hb => ?_⟩
  cases hd : s.dropWhile (!endsPath ·) with
  | nil =>
    have hall := List.dropWhile_eq_nil_iff.mp hd b hb
    exact Bool.not_eq_true' _ ▸ hall
  | cons c t =>
    have hc : endsPath c = true := by
      have hhead := List.head_dropWhile_not (p := (!endsPath ·)) (l := s) (by rw [hd]; exact List.cons_ne_nil _ _)
      simpa [hd] using hhead
    rw [hd] at hw
    have hpos : weight (c :: t) = weight t + 1 := List.countP_cons_of_pos (by rw [not_isSeparator_of_endsPath hc]; rfl)
    omega

/-- The segments of a path have its bytes, without the separators. -/
theorem length_flatten_splitOnP (s : List UInt8) : (s.splitOnP isSeparator).flatten.length = weight s := by
  induction s with
  | nil => rfl
  | cons b s ih =>
    rw [List.splitOnP_cons_eq_if_modifyHead, weight, List.countP_cons, ← weight, ← ih]
    cases hb : isSeparator b with
    | true => simp
    | false =>
      obtain ⟨p, ps, hps⟩ := List.exists_cons_of_ne_nil (List.splitOnP_ne_nil isSeparator s)
      rw [hps]
      simp

theorem length_flatten_dropLast (out : List (List UInt8)) : out.dropLast.flatten.length ≤ out.flatten.length :=
  out.dropLast_sublist.flatten.length_le

theorem length_pos_of_dots {segment : List UInt8} (h : doubleDots.contains segment = true ∨ singleDots.contains segment = true) :
    0 < segment.length := by
  have hall : (∀ d ∈ doubleDots, 0 < d.length) ∧ ∀ d ∈ singleDots, 0 < d.length := by decide
  exact h.elim (fun h => hall.1 _ (List.contains_iff_mem.mp h)) (fun h => hall.2 _ (List.contains_iff_mem.mp h))

/-- Resolving a segment of dots loses its bytes, and other segments are kept. -/
theorem length_foldl_resolve (ss out : List (List UInt8)) :
    (ss.foldl resolve out).flatten.length ≤ out.flatten.length + ss.flatten.length ∧
      ((ss.foldl resolve out).flatten.length = out.flatten.length + ss.flatten.length →
        ∀ s ∈ ss, doubleDots.contains s = false ∧ singleDots.contains s = false) := by
  induction ss generalizing out with
  | nil => exact ⟨Nat.le_refl _, fun _ => List.forall_mem_nil _⟩
  | cons s ss ih =>
    obtain ⟨hle, heq⟩ := ih (resolve out s)
    rw [List.foldl_cons, List.flatten_cons, List.length_append]
    by_cases hd : doubleDots.contains s = true
    · have hpos := length_pos_of_dots (Or.inl hd)
      have hdrop := length_flatten_dropLast out
      have hr : resolve out s = out.dropLast := by rw [resolve, if_pos hd]
      rw [hr] at hle ⊢
      exact ⟨by omega, fun h => by omega⟩
    by_cases hs : singleDots.contains s = true
    · have hpos := length_pos_of_dots (Or.inr hs)
      have hr : resolve out s = out := by rw [resolve, if_neg hd, if_pos hs]
      rw [hr] at hle ⊢
      exact ⟨by omega, fun h => by omega⟩
    · have hr : resolve out s = out ++ [s] := by rw [resolve, if_neg hd, if_neg hs]
      have hlength : (out ++ [s]).flatten.length = out.flatten.length + s.length := by simp
      rw [hr, hlength] at hle heq
      rw [hr]
      refine ⟨by omega, fun h => List.forall_mem_cons.mpr ⟨?_, heq (by omega)⟩⟩
      exact ⟨Bool.eq_false_iff.mpr hd, Bool.eq_false_iff.mpr hs⟩

/-- Segments that are no dots are kept. -/
theorem foldl_resolve (ss out : List (List UInt8))
    (h : ∀ s ∈ ss, doubleDots.contains s = false ∧ singleDots.contains s = false) : ss.foldl resolve out = out ++ ss := by
  induction ss generalizing out with
  | nil => exact (List.append_nil out).symm
  | cons s ss ih =>
    obtain ⟨⟨hd, hs⟩, hrest⟩ := List.forall_mem_cons.mp h
    have hr : resolve out s = out ++ [s] := by rw [resolve, hd, hs]; rfl
    rw [List.foldl_cons, hr, ih _ hrest, List.append_assoc]
    rfl

theorem length_flatten_map_percentDecode (ss : List (List UInt8)) :
    (ss.map percentDecode).flatten.length ≤ ss.flatten.length ∧
      ((ss.map percentDecode).flatten.length = ss.flatten.length → ∀ s ∈ ss, ¬HasEscape s) := by
  induction ss with
  | nil => exact ⟨Nat.le_refl _, fun _ => List.forall_mem_nil _⟩
  | cons s ss ih =>
    obtain ⟨hle, heq⟩ := ih
    have hs := percentDecode_length_le s
    rw [List.map_cons, List.flatten_cons, List.length_append, List.flatten_cons, List.length_append]
    refine ⟨by omega, fun h => List.forall_mem_cons.mpr ⟨fun he => ?_, heq (by omega)⟩⟩
    have hlt := percentDecode_length_lt s he
    omega

/-! ## A path of pieces -/

/-- A path ends as its last piece does. -/
theorem getLast?_joined {ps : List (List UInt8)} {p : List UInt8} (hp : ps.getLast? = some p) (hne : p ≠ []) :
    (joined ps).getLast? = p.getLast? := by
  obtain ⟨qs, rfl⟩ := List.getLast?_eq_some_iff.mp hp
  have hcons : (47 :: p).getLast? = p.getLast? := by
    obtain ⟨c, t, rfl⟩ := List.exists_cons_of_ne_nil hne
    exact List.getLast?_cons_cons
  obtain ⟨b, hb⟩ : ∃ b, p.getLast? = some b := ⟨_, List.getLast?_eq_some_getLast hne⟩
  rw [joined, List.flatMap_append, List.flatMap_singleton, List.getLast?_append, hcons, hb]
  rfl

theorem splitOnP_append_joined {p : List UInt8} {ps : List (List UInt8)} (hp : ∀ b ∈ p, isSeparator b = false)
    (h : ∀ p ∈ ps, ∀ b ∈ p, isSeparator b = false) : (p ++ joined ps).splitOnP isSeparator = p :: ps := by
  induction ps generalizing p with
  | nil =>
    rw [joined, List.flatMap_nil, List.append_nil]
    exact List.splitOnP_eq_singleton hp
  | cons q ps ih =>
    obtain ⟨hq, hps⟩ := List.forall_mem_cons.mp h
    rw [joined, List.flatMap_cons, ← joined, List.cons_append, List.splitOnP_append_cons_of_forall_mem hp 47 rfl, ih hq hps]

/-- A path in which nothing has a meaning is read piece by piece. -/
theorem rawSegments_joined {ps : List (List UInt8)} (h : ∀ p ∈ ps, ∀ b ∈ p, isSeparator b = false) :
    rawSegments (joined ps) = ps.foldl resolve [] := by
  rw [rawSegments, ← List.nil_append (joined ps), splitOnP_append_joined (List.forall_mem_nil _) h, List.tail_cons]

/-- A segment of dots is written with dots alone, or has an escape. -/
theorem Plain.not_dots {p : List UInt8} (hp : Plain p) : doubleDots.contains p = false ∧ singleDots.contains p = false := by
  have hall : ∀ d ∈ doubleDots ++ singleDots, d = [46] ∨ d = [46, 46] ∨ percentDecode d ≠ d := by decide
  have hnot : p ∉ doubleDots ++ singleDots := by
    intro hmem
    rcases hall p hmem with h | h | h
    · exact hp.dots.1 h
    · exact hp.dots.2 h
    · exact h (percentDecode_eq_self p hp.escapes)
  simpa only [List.contains_eq_mem, decide_eq_false_iff_not, List.mem_append, not_or] using hnot

theorem rdropWhile_isBlank {s : List UInt8} : s.rdropWhile isBlank = s ↔ NoBlankEnd s := by
  rw [List.rdropWhile_eq_self_iff, NoBlankEnd]
  constructor
  · intro h b hb
    obtain ⟨hs, hlast⟩ := List.mem_getLast?_eq_getLast hb
    rw [hlast]
    exact Bool.eq_false_iff.mpr (h hs)
  · intro h hs
    exact Bool.eq_false_iff.mp (h _ (List.getLast?_eq_some_getLast hs))

theorem path_of_plain {s : List UInt8} (hend : NoBlankEnd s) (h : ∀ b ∈ s, endsPath b = false ∧ isTabOrNewline b = false) :
    path s = s := by
  have hclean : cleaned s = s := by
    rw [cleaned, rdropWhile_isBlank.mpr hend]
    exact List.filter_eq_self.mpr fun b hb => by rw [(h b hb).2]; rfl
  rw [path, hclean]
  exact List.takeWhile_eq_self_iff.mpr fun b hb => by rw [(h b hb).1]; rfl

/-- Plain pieces are the segments of their path, but for the empty ones. -/
theorem segments_joined {ps : List (List UInt8)} (h : ∀ p ∈ ps, Plain p) (hend : NoBlankEnd (joined ps)) :
    segments (joined ps) = ps.filter (!·.isEmpty) := by
  have hpath : path (joined ps) = joined ps := by
    refine path_of_plain hend fun b hb => ?_
    obtain ⟨p, hp, hb⟩ := List.mem_flatMap.mp hb
    rcases List.mem_cons.mp hb with rfl | hb
    · exact ⟨rfl, rfl⟩
    · exact ((h p hp).bytes b hb).2
  have hraw : rawSegments (joined ps) = ps := by
    rw [rawSegments_joined fun p hp b hb => ((h p hp).bytes b hb).1]
    exact foldl_resolve ps [] fun p hp => (h p hp).not_dots
  rw [segments, hpath, hraw]
  refine (List.map_congr_left fun p hp => ?_).trans (List.map_id _)
  exact percentDecode_eq_self p (h p (List.mem_filter.mp hp).1).escapes

/-- Where no byte of the pieces is lost in the end, none is lost on the way. -/
theorem kept_of_segments {ps : List (List UInt8)} (h : (segments (joined ps)).flatten.length = ps.flatten.length) :
    (joined ps).rdropWhile isBlank = joined ps ∧ (∀ b ∈ (joined ps).rdropWhile isBlank, isTabOrNewline b = false) ∧
      (∀ b ∈ cleaned (joined ps), endsPath b = false) ∧ (∀ b ∈ ps.flatten, isSeparator b = false) ∧
      (∀ s ∈ ((path (joined ps)).splitOnP isSeparator).tail, doubleDots.contains s = false ∧ singleDots.contains s = false) ∧
      ∀ s ∈ (rawSegments (path (joined ps))).filter (!·.isEmpty), ¬HasEscape s := by
  -- no step gains anything
  obtain ⟨hdecode, hdecode'⟩ := length_flatten_map_percentDecode ((rawSegments (path (joined ps))).filter (!·.isEmpty))
  obtain ⟨hresolve, hresolve'⟩ := length_foldl_resolve ((path (joined ps)).splitOnP isSeparator).tail []
  obtain ⟨hend, hend'⟩ := weight_path (cleaned (joined ps))
  obtain ⟨htabs, htabs'⟩ := weight_filter (fun _ => not_isSeparator_of_isTabOrNewline) ((joined ps).rdropWhile isBlank)
  obtain ⟨hblank, hblank'⟩ := weight_rdropWhile (joined ps)
  have htail := (List.tail_sublist ((path (joined ps)).splitOnP isSeparator)).flatten.length_le
  have hsplit := length_flatten_splitOnP (path (joined ps))
  have hpieces : weight ps.flatten ≤ ps.flatten.length := List.countP_le_length
  have hjoined := weight_joined ps
  rw [List.flatten_filter_not_isEmpty, ← segments] at hdecode hdecode'
  rw [← rawSegments, List.flatten_nil, List.length_nil, Nat.zero_add] at hresolve hresolve'
  rw [← path] at hend hend'
  rw [← cleaned] at htabs htabs'
  -- so none loses anything
  refine ⟨hblank' (by omega), htabs' (by omega), hend' (by omega), fun b hb => ?_, hresolve' (by omega), hdecode' (by omega)⟩
  have hall := List.countP_eq_length.mp (show weight ps.flatten = ps.flatten.length by omega) b hb
  simpa using hall

/-- Where no byte of the pieces is lost, they are plain. -/
theorem plain_of_segments {ps : List (List UInt8)} (h : (segments (joined ps)).flatten.length = ps.flatten.length) :
    (∀ p ∈ ps, Plain p) ∧ NoBlankEnd (joined ps) := by
  obtain ⟨hwhole, hnoTab, hnoEnd, hnoSeparator, hdots, hescapes⟩ := kept_of_segments h
  have hclean : cleaned (joined ps) = joined ps := by
    rw [cleaned, List.filter_eq_self.mpr fun b hb => by rw [hnoTab b hb]; rfl, hwhole]
  rw [hwhole] at hnoTab
  rw [hclean] at hnoEnd
  have hpath : path (joined ps) = joined ps :=
    path_of_plain (rdropWhile_isBlank.mp hwhole) fun b hb => ⟨hnoEnd b hb, hnoTab b hb⟩
  have hseparated : ∀ p ∈ ps, ∀ b ∈ p, isSeparator b = false := fun p hp b hb => hnoSeparator b (List.mem_flatten_of_mem hp hb)
  rw [hpath, ← List.nil_append (joined ps), splitOnP_append_joined (List.forall_mem_nil _) hseparated, List.tail_cons] at hdots
  rw [hpath, rawSegments_joined hseparated, foldl_resolve ps [] hdots, List.nil_append] at hescapes
  refine ⟨fun p hp => ⟨fun b hb => ?_, fun hp' => ?_, ?_⟩, rdropWhile_isBlank.mp hwhole⟩
  · have hb' : b ∈ joined ps := List.mem_flatMap.mpr ⟨p, hp, List.mem_cons_of_mem 47 hb⟩
    exact ⟨hseparated p hp b hb, hnoEnd b hb', hnoTab b hb'⟩
  · refine hescapes p (List.mem_filter.mpr ⟨hp, ?_⟩) hp'
    cases p with
    | nil => exact absurd (percentDecode_length_lt [] hp') (Nat.not_lt_zero _)
    | cons b p => rfl
  · obtain ⟨hdouble, hsingle⟩ := hdots p hp
    constructor
    · rintro rfl
      cases hsingle
    · rintro rfl
      cases hdouble

end Url
