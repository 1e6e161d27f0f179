import Hexstody.Lemmas.Bits
import Mathlib.Data.List.Forall2
import Mathlib.Data.List.Nodup

/-!
# Whether a mnemonic restores its key

The words of a key are the digits, in base 2048, of the number whose bytes are the key and its checksum (`seedNumber`), and are read
back as such; but the first word of the list is never read, as its number is 0. `mnemonic_restores_iff` says that a key is restored
from its words just when none of these digits is 0, that an accepted mnemonic is the one of its key just when its words are all in
the list, and that a mnemonic of listed words is refused only for its checksum just when the first word is not in it or the checksum
is wrong anyway.
-/

namespace Hexstody

namespace Mnemonic

/-! ## Keys and their numbers -/

section

variable {sha256 : PrivateKey → UInt8} {k : PrivateKey}

/-- The number whose bytes are a key and the first byte of its hash. -/
def seedNumber (sha256 : PrivateKey → UInt8) (k : PrivateKey) : Nat := ofBE 256 ((k.bytes ++ [sha256 k]).map UInt8.toNat)

theorem length_seed (k : PrivateKey) : (k.bytes ++ [sha256 k]).length = 33 := by
  rw [List.length_append, k.length_eq]
  rfl

theorem bigEndian_seedNumber (sha256 : PrivateKey → UInt8) (k : PrivateKey) :
    bigEndian 33 (seedNumber sha256 k) = k.bytes ++ [sha256 k] := by
  rw [bigEndian, seedNumber, digitsBE_toNat (length_seed k), List.map_map]
  refine (List.map_congr_left fun b _ => ?_).trans (List.map_id _)
  exact UInt8.ofNat_toNat

theorem seedNumber_lt (sha256 : PrivateKey → UInt8) (k : PrivateKey) : seedNumber sha256 k < 256 ^ 33 := by
  have hlt : seedNumber sha256 k < 256 ^ ((k.bytes ++ [sha256 k]).map UInt8.toNat).length := ofBE_lt toNat_lt_of_mem
  rw [List.length_map, length_seed] at hlt
  exact hlt

/-- The bytes of a number are accepted as a key just when they are the key with its checksum. -/
theorem checkSummed_iff {n : Nat} (hn : n < 256 ^ 33) :
    checkSummed sha256 (bigEndian 33 n) = .ok k ↔ seedNumber sha256 k = n := by
  have hlen : (bigEndian 33 n).length = 33 := length_bigEndian 33 n
  have hseed : seedNumber sha256 k = n ↔ k.bytes ++ [sha256 k] = bigEndian 33 n := by
    constructor
    · rintro rfl
      exact (bigEndian_seedNumber sha256 k).symm
    · intro h
      rw [← bigEndian_seedNumber] at h
      exact bigEndian_inj (seedNumber_lt sha256 k) hn h
  rw [hseed]
  generalize bigEndian 33 n = bs at hlen
  have hsplit : bs = bs.take 32 ++ [bs[32]] := by
    rw [List.take_append_getElem, List.take_of_length_le (by omega)]
  unfold checkSummed
  rw [dif_pos (by omega)]
  dsimp only
  constructor
  · intro h
    split at h
    · rename_i hsum
      obtain rfl := Except.ok.inj h
      rw [hsum]
      exact hsplit.symm
    · cases h
  · intro h
    obtain ⟨hkey, hsum⟩ := List.append_inj' (h.trans hsplit) rfl
    obtain ⟨bytes, hk⟩ := k
    obtain rfl : bytes = bs.take 32 := hkey
    exact if_pos (List.singleton_inj.mp hsum)

end

/-! ## Words and their numbers -/

section

variable {W : Wordlist} {inherited : String → Option (List Char)} {sha256 : PrivateKey → UInt8} {k : PrivateKey}
  {m : List String} {ds : List Nat}

/-- The words are those with the numbers. -/
def Names (W : Wordlist) (ds : List Nat) (m : List String) : Prop := List.Forall₂ (fun d w => W.words[d]? = some w) ds m

theorem idxOf?_eq_some_iff {w : String} {d : Nat} : W.words.idxOf? w = some d ↔ W.words[d]? = some w := by
  rw [List.idxOf?_eq_some_iff, List.getElem?_eq_some_iff]
  refine exists_congr fun hd => and_iff_left_of_imp fun hw j hj hwj => ?_
  have hsame : j = d := W.nodup.getElem_inj_iff.mp (hwj.trans hw.symm)
  omega

theorem lt_of_word {w : String} {d : Nat} (h : W.words[d]? = some w) : d < 2048 := by
  rw [← W.length_eq]
  exact (List.getElem?_eq_some_iff.mp h).1

theorem Names.length_eq (h : Names W ds m) : ds.length = m.length := List.Forall₂.length_eq h

theorem Names.lt (h : Names W ds m) : ∀ d ∈ ds, d < 2048 := by
  unfold Names at h
  induction h with
  | nil => simp
  | cons hw _ ih =>
    intro d hd
    rcases List.mem_cons.mp hd with rfl | hd
    · exact lt_of_word hw
    · exact ih d hd

theorem Names.mem_words (h : Names W ds m) : ∀ w ∈ m, w ∈ W.words := by
  unfold Names at h
  induction h with
  | nil => simp
  | cons hw _ ih =>
    intro w hmem
    rcases List.mem_cons.mp hmem with rfl | hmem
    · exact List.mem_of_getElem? hw
    · exact ih w hmem

/-- The first word is one of the words just when 0 is one of the numbers. -/
theorem Names.zero_mem_iff (h : Names W ds m) : 0 ∈ ds ↔ ∃ w ∈ m, W.words[0]? = some w := by
  unfold Names at h
  induction h with
  | nil => simp
  | @cons d w ds m hw _ ih =>
    rw [List.mem_cons, ih, List.exists_mem_cons_iff]
    refine or_congr_left ⟨?_, ?_⟩
    · rintro rfl
      exact hw
    · intro h0
      have hnum := (idxOf?_eq_some_iff.mpr h0).symm.trans (idxOf?_eq_some_iff.mpr hw)
      exact Option.some.inj hnum

/-- Every number below 2048 has a word. -/
theorem exists_names (h : ∀ d ∈ ds, d < 2048) : ∃ m, Names W ds m := by
  induction ds with
  | nil => exact ⟨[], .nil⟩
  | cons d ds ih =>
    obtain ⟨m, hm⟩ := ih fun d' hd' => h d' (List.mem_cons_of_mem _ hd')
    have hd : d < W.words.length := by
      rw [W.length_eq]
      exact h d (by simp)
    exact ⟨W.words[d] :: m, .cons (List.getElem?_eq_getElem hd) hm⟩

/-- Every listed word has a number. -/
theorem exists_names_of_mem (h : ∀ w ∈ m, w ∈ W.words) : ∃ ds, Names W ds m := by
  induction m with
  | nil => exact ⟨[], .nil⟩
  | cons w m ih =>
    obtain ⟨ds, hds⟩ := ih fun w' hw' => h w' (List.mem_cons_of_mem _ hw')
    obtain ⟨d, hd⟩ := List.mem_iff_getElem?.mp (h w (by simp))
    exact ⟨d :: ds, .cons hd hds⟩

/-- The words of numbers. -/
theorem mapM_wordAt_iff : (ds.map fun d : Nat => some (d : Int)).mapM (wordAt W) = some m ↔ Names W ds m := by
  unfold Names
  induction ds generalizing m with
  | nil =>
    rw [List.map_nil, List.mapM_nil, List.forall₂_nil_left_iff]
    exact ⟨fun h => (Option.some.inj h).symm, fun h => congrArg some h.symm⟩
  | cons d ds ih =>
    rw [List.map_cons, List.mapM_cons, List.forall₂_cons_left_iff]
    change (W.words[d]?.bind fun w => ((ds.map fun d : Nat => some (d : Int)).mapM (wordAt W)).bind fun ws => some (w :: ws)) =
      some m ↔ _
    simp only [Option.bind_eq_some_iff, ih, Option.some.injEq]
    constructor
    · rintro ⟨w, hw, ws, hws, rfl⟩
      exact ⟨w, ws, hw, hws, rfl⟩
    · rintro ⟨w, ws, hw, hws, rfl⟩
      exact ⟨w, hw, ws, hws, rfl⟩

/-- The mnemonic of a key names the digits of its number. -/
theorem privateKeyToMnemonic_iff :
    privateKeyToMnemonic W sha256 k = some m ↔ Names W (digitsBE 2048 24 (seedNumber sha256 k)) m := by
  rw [privateKeyToMnemonic, toUint11Array_eq (length_seed k)]
  exact mapM_wordAt_iff

/-- The loop reads words whose numbers are not 0. -/
theorem Names.readWords (h : Names W ds m) (hne : 0 ∉ ds) : readWords W inherited m = .ok (ds.map .number) := by
  unfold Names at h
  induction h with
  | nil => rfl
  | @cons d w ds m hw _ ih =>
    rw [List.mem_cons, not_or] at hne
    have hd : (Property.number d).truthy = true := bne_iff_ne.mpr (Ne.symm hne.1)
    rw [Mnemonic.readWords, lookup, idxOf?_eq_some_iff.mpr hw]
    dsimp only
    rw [if_pos hd, ih hne.2]
    rfl

/-- The loop stops at the first word of the list. -/
theorem Names.readWords_zero (h : Names W ds m) (hzero : 0 ∈ ds) : ∃ e, Mnemonic.readWords W inherited m = .error e := by
  unfold Names at h
  induction h with
  | nil => cases hzero
  | @cons d w ds m hw _ ih =>
    rw [Mnemonic.readWords, lookup, idxOf?_eq_some_iff.mpr hw]
    dsimp only
    by_cases hd : d = 0
    · subst hd
      exact ⟨_, if_neg (by decide)⟩
    · obtain ⟨e, he⟩ := ih ((List.mem_cons.mp hzero).resolve_left (Ne.symm hd))
      have htrue : (Property.number d).truthy = true := bne_iff_ne.mpr hd
      exact ⟨e, by rw [if_pos htrue, he]; rfl⟩

/-- Listed words restore a key just when their numbers are not 0 and stand for the number of the key. -/
theorem Names.restores_iff (h : Names W ds m) (hlen : m.length = 24) :
    mnemonicToPrivateKey W inherited sha256 m = .ok k ↔ 0 ∉ ds ∧ seedNumber sha256 k = ofBE 2048 ds := by
  have hds : ds.length = 24 := h.length_eq.trans hlen
  have hlt : ofBE 2048 ds < 256 ^ 33 := by
    have hlt := ofBE_lt h.lt
    rw [hds] at hlt
    exact lt_of_lt_of_eq hlt (by decide)
  unfold mnemonicToPrivateKey
  rw [if_neg (by rw [hlen]; decide)]
  by_cases hzero : 0 ∈ ds
  · obtain ⟨e, he⟩ : ∃ e, Mnemonic.readWords W inherited m = .error e := h.readWords_zero hzero
    rw [he]
    exact iff_of_false (fun hok => by cases hok) (fun hne => hne.1 hzero)
  · rw [h.readWords hzero, and_iff_right hzero]
    dsimp only
    rw [fromUint11Array_eq hds h.lt]
    exact checkSummed_iff hlt

/-! ## Keys and mnemonics -/

/-- The key is restored from its mnemonic. -/
def Restored (W : Wordlist) (inherited : String → Option (List Char)) (sha256 : PrivateKey → UInt8) (k : PrivateKey) : Prop :=
  ∃ m, privateKeyToMnemonic W sha256 k = some m ∧ mnemonicToPrivateKey W inherited sha256 m = .ok k

/-- The checksum in a mnemonic of listed words is the one of its key. -/
def Checks (W : Wordlist) (sha256 : PrivateKey → UInt8) (m : List String) : Prop :=
  ∃ ds k, Names W ds m ∧ seedNumber sha256 k = ofBE 2048 ds

/-- A key has a mnemonic, of 24 words. -/
theorem exists_mnemonic (W : Wordlist) (sha256 : PrivateKey → UInt8) (k : PrivateKey) :
    ∃ m, privateKeyToMnemonic W sha256 k = some m ∧ m.length = 24 ∧ Names W (digitsBE 2048 24 (seedNumber sha256 k)) m := by
  obtain ⟨m, hm⟩ : ∃ m, Names W (digitsBE 2048 24 (seedNumber sha256 k)) m := exists_names (digitsBE_lt (by decide))
  exact ⟨m, privateKeyToMnemonic_iff.mpr hm, hm.length_eq.symm.trans (length_digitsBE _ _ _), hm⟩

theorem restored_iff : Restored W inherited sha256 k ↔ 0 ∉ digitsBE 2048 24 (seedNumber sha256 k) := by
  obtain ⟨m, hm, hlen, hnames⟩ := exists_mnemonic W sha256 k
  have hfits : seedNumber sha256 k < 2048 ^ 24 := lt_of_lt_of_eq (seedNumber_lt sha256 k) (by decide)
  have hvalue : seedNumber sha256 k = ofBE 2048 (digitsBE 2048 24 (seedNumber sha256 k)) := by
    rw [ofBE_digitsBE, Nat.mod_eq_of_lt hfits]
  constructor
  · rintro ⟨m', hm', hrestores⟩
    obtain rfl := Option.some.inj (hm.symm.trans hm')
    exact ((hnames.restores_iff hlen).mp hrestores).1
  · exact fun hne => ⟨m, hm, (hnames.restores_iff hlen).mpr ⟨hne, hvalue⟩⟩

theorem length_of_accepted (h : mnemonicToPrivateKey W inherited sha256 m = .ok k) : m.length = 24 := by
  unfold mnemonicToPrivateKey at h
  split at h
  · cases h
  · rename_i hlen
    exact not_not.mp hlen

/-- An accepted mnemonic is that of its key just when its words are listed. -/
theorem accepted_iff (h : mnemonicToPrivateKey W inherited sha256 m = .ok k) :
    privateKeyToMnemonic W sha256 k = some m ↔ ∀ w ∈ m, w ∈ W.words := by
  have hlen := length_of_accepted h
  rw [privateKeyToMnemonic_iff]
  constructor
  · exact fun hnames => hnames.mem_words
  · intro hlisted
    obtain ⟨ds, hnames⟩ := exists_names_of_mem hlisted
    have hself := digitsBE_ofBE hnames.lt
    rw [hnames.length_eq, hlen] at hself
    rw [((hnames.restores_iff hlen).mp h).2, hself]
    exact hnames

/-- A mnemonic of listed words is accepted just when the first word of the list is not in it and the checksum is right. -/
theorem exists_restores_iff (hlen : m.length = 24) (hlisted : ∀ w ∈ m, w ∈ W.words) :
    (∃ k, mnemonicToPrivateKey W inherited sha256 m = .ok k) ↔ (¬∃ w ∈ m, W.words[0]? = some w) ∧ Checks W sha256 m := by
  obtain ⟨ds, hnames⟩ := exists_names_of_mem hlisted
  rw [← hnames.zero_mem_iff]
  constructor
  · rintro ⟨k, hk⟩
    obtain ⟨hne, hseed⟩ := (hnames.restores_iff hlen).mp hk
    exact ⟨hne, ds, k, hnames, hseed⟩
  · rintro ⟨hne, ds', k, hnames', hseed⟩
    obtain rfl : ds' = ds := by
      have hright : Relator.RightUnique (fun (w : String) (d : Nat) => W.words[d]? = some w) := by
        intro w d d' hd hd'
        exact Option.some.inj ((idxOf?_eq_some_iff.mpr hd).symm.trans (idxOf?_eq_some_iff.mpr hd'))
      exact List.right_unique_forall₂' hright (List.Forall₂.flip hnames') (List.Forall₂.flip hnames)
    exact ⟨k, (hnames.restores_iff hlen).mpr ⟨hne, hseed⟩⟩

/-- A mnemonic of listed words is refused only for its checksum just when the first word is not in it, or the checksum is wrong. -/
theorem refused_iff (hlen : m.length = 24) (hlisted : ∀ w ∈ m, w ∈ W.words) :
    ((∃ e, mnemonicToPrivateKey W inherited sha256 m = .error e) → ¬Checks W sha256 m) ↔
      (¬∃ w ∈ m, W.words[0]? = some w) ∨ ¬Checks W sha256 m := by
  have hiff : (∃ k, mnemonicToPrivateKey W inherited sha256 m = .ok k) ↔ _ := exists_restores_iff hlen hlisted
  have hfails : (∃ e, mnemonicToPrivateKey W inherited sha256 m = .error e) ↔
      ¬∃ k, mnemonicToPrivateKey W inherited sha256 m = .ok k := by
    cases mnemonicToPrivateKey W inherited sha256 m with
    | error e => exact iff_of_true ⟨e, rfl⟩ (fun ⟨_, hk⟩ => by cases hk)
    | ok k => exact iff_of_false (fun ⟨_, he⟩ => by cases he) (not_not.mpr ⟨k, rfl⟩)
  rw [hfails, hiff]
  constructor
  · intro honly
    by_cases hchecks : Checks W sha256 m
    · refine Or.inl fun hfirst => ?_
      exact honly (fun hok => hok.1 hfirst) hchecks
    · exact Or.inr hchecks
  · rintro (hfirst | hchecks) hfails
    · exact fun hchecks => hfails ⟨hfirst, hchecks⟩
    · exact hchecks

/-- Whatever the list of words, what its object inherits and the hash: a key is restored from its mnemonic just when none of the
groups of eleven bits of the key and its checksum is zero; an accepted mnemonic is that of its key just when its words are all
listed; and a mnemonic of listed words is refused only for its checksum just when the first word is not in it, or the checksum is
wrong. -/
theorem mnemonic_restores_iff (W : Wordlist) (inherited : String → Option (List Char)) (sha256 : PrivateKey → UInt8) :
    (∀ k, Restored W inherited sha256 k ↔ 0 ∉ digitsBE 2048 24 (seedNumber sha256 k)) ∧
    (∀ m k, mnemonicToPrivateKey W inherited sha256 m = .ok k →
      (privateKeyToMnemonic W sha256 k = some m ↔ ∀ w ∈ m, w ∈ W.words)) ∧
    (∀ m : List String, m.length = 24 → (∀ w ∈ m, w ∈ W.words) →
      (((∃ e, mnemonicToPrivateKey W inherited sha256 m = .error e) → ¬Checks W sha256 m) ↔
        (¬∃ w ∈ m, W.words[0]? = some w) ∨ ¬Checks W sha256 m)) :=
  ⟨fun _ => restored_iff, fun _ _ => accepted_iff, fun _ => refused_iff⟩

end

end Mnemonic

namespace Sample

/-- A list of words: the first is `a`, the second `aa`, and so on. -/
def wordlist : Wordlist where
  words := (List.range 2048).map fun i => String.ofList (List.replicate (i + 1) 'a')
  length_eq := by rw [List.length_map, List.length_range]
  nodup := by
    refine List.nodup_range.map fun i j h => ?_
    have hlen := congrArg (fun s : String => s.toList.length) h
    simpa using hlen

/-- What is inherited under one name. -/
def inheritedText (w : String) : Option (List Char) :=
  if w = "constructor" then some "function Object() \x7b [native code] \x7d".toList else none

/-- A key of two bytes that are given, and ones. -/
def keyFrom (a b : UInt8) : PrivateKey where
  bytes := a :: b :: List.replicate 30 255
  length_eq := by rw [List.length_cons, List.length_cons, List.length_replicate]

/-- A hash that starts with 1, whatever the key. -/
def hashByte (_ : PrivateKey) : UInt8 := 1

end Sample

namespace Mnemonic

open Sample

/-- A key without eleven zeros in one group is restored. -/
theorem mnemonic_restored : Restored wordlist inheritedText hashByte (keyFrom 255 0) :=
  ((mnemonic_restores_iff wordlist inheritedText hashByte).1 (keyFrom 255 0)).mpr (by decide)

/-- A key that starts with eleven zeros has a mnemonic of listed words, which is refused. -/
theorem mnemonic_not_restored :
    (∃ m e, privateKeyToMnemonic wordlist hashByte (keyFrom 0 1) = some m ∧ (∀ w ∈ m, w ∈ wordlist.words) ∧
      mnemonicToPrivateKey wordlist inheritedText hashByte m = .error e) ∧
    ¬∀ (W : Wordlist) (inherited : String → Option (List Char)) (sha256 : PrivateKey → UInt8),
      (∀ k, Restored W inherited sha256 k) ∧
      (∀ m k, mnemonicToPrivateKey W inherited sha256 m = .ok k → privateKeyToMnemonic W sha256 k = some m) ∧
      (∀ m : List String, m.length = 24 → (∀ w ∈ m, w ∈ W.words) →
        (∃ e, mnemonicToPrivateKey W inherited sha256 m = .error e) → ¬Checks W sha256 m) := by
  have hzero : 0 ∈ digitsBE 2048 24 (seedNumber hashByte (keyFrom 0 1)) := by decide
  refine ⟨?_, fun h => restored_iff.mp ((h wordlist inheritedText hashByte).1 (keyFrom 0 1)) hzero⟩
  obtain ⟨m, hm, hlen, hnames⟩ := exists_mnemonic wordlist hashByte (keyFrom 0 1)
  obtain ⟨e, he⟩ : ∃ e, readWords wordlist inheritedText m = .error e := hnames.readWords_zero hzero
  refine ⟨m, e, hm, hnames.mem_words, ?_⟩
  unfold mnemonicToPrivateKey
  rw [if_neg (by rw [hlen]; decide), he]

end Mnemonic

end Hexstody
