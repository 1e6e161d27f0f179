import Hexstody.ColdWallet
import Mathlib.Data.List.Forall2

/-!
# The reserve of the hot wallet

Whether the dumps to cold storage leave the configured amount in the hot wallet. The worker sends all but that amount only of a
balance over twice the amount; of a smaller one it sends the amount itself, and less is left. `dumps_keep_reserve_iff` says that
this is all: a run keeps the reserve just when no balance is seen strictly between the amount and its double.
-/

namespace Hexstody

namespace ColdWallet

/-- What a notification should come to: nothing for a balance that is not over the amount; else all but the amount is sent. -/
def KeepsReserve (coldAmount : UInt64) (coldAddress : Address) : Except String UInt64 → ColdStep → Prop
  | .error _, step => step = .kept
  | .ok bal, step =>
    if bal ≤ coldAmount then step = .kept
    else ∃ dump, step = .sent dump ∧ dump.address = coldAddress ∧ 0 < dump.amount.toNat ∧ dump.amount ≤ bal ∧
      ∀ fee, dump.leaves bal fee = coldAmount.toNat

variable {coldAmount bal : UInt64} {coldAddress : Address}

/-- The amount is over the reserve, and less than twice as much. -/
def FallsShort (coldAmount bal : UInt64) : Prop := coldAmount.toNat < bal.toNat ∧ bal.toNat < 2 * coldAmount.toNat

theorem addAmount_eq_some {a b c : UInt64} (h : addAmount a b = some c) : c.toNat = a.toNat + b.toNat := by
  unfold addAmount at h
  split at h
  · rename_i hfits
    rw [← Option.some.inj h, UInt64.toNat_add]
    exact Nat.mod_eq_of_lt hfits
  · cases h

/-- Of a balance that does not fall short, what is over the reserve is sent. -/
theorem dumpAmount_of_not_fallsShort (hover : coldAmount < bal) (hnot : ¬FallsShort coldAmount bal) :
    ∃ amount, dumpAmount coldAmount bal = some amount ∧ amount.toNat + coldAmount.toNat = bal.toNat := by
  have hlt := UInt64.lt_iff_toNat_lt.mp hover
  have htwice : 2 * coldAmount.toNat ≤ bal.toNat := Nat.not_lt.mp fun h => hnot ⟨hlt, h⟩
  have hbal := bal.toNat_lt
  have hadd : addAmount coldAmount coldAmount = some (coldAmount + coldAmount) := by
    refine if_pos ?_
    change _ < 18446744073709551616
    omega
  have hval := addAmount_eq_some hadd
  have hdiff : (bal - coldAmount).toNat = bal.toNat - coldAmount.toNat :=
    UInt64.toNat_sub_of_le _ _ (UInt64.le_iff_toNat_le.mpr (Nat.le_of_lt hlt))
  unfold dumpAmount
  simp only [hadd]
  split
  · exact ⟨bal - coldAmount, if_pos (Nat.le_of_lt hlt), by omega⟩
  · rename_i hle
    have hle' : ¬(coldAmount + coldAmount).toNat < bal.toNat := fun h => hle (UInt64.lt_iff_toNat_lt.mpr h)
    exact ⟨coldAmount, rfl, by omega⟩

/-- Of a balance that falls short, the reserve itself is sent, if its double can be computed at all. -/
theorem dumpAmount_of_fallsShort (h : FallsShort coldAmount bal) :
    dumpAmount coldAmount bal = none ∨ dumpAmount coldAmount bal = some coldAmount := by
  unfold dumpAmount
  cases hadd : addAmount coldAmount coldAmount with
  | none => exact Or.inl rfl
  | some twice =>
    have hval := addAmount_eq_some hadd
    have hnot : ¬bal > twice := fun hgt => by
      have hlt := UInt64.lt_iff_toNat_lt.mp hgt
      have hshort := h.2
      omega
    exact Or.inr (if_neg hnot)

/-- (step) A notification keeps the reserve just when the balance does not fall short. -/
theorem onNotified_keepsReserve_iff (coldAddress : Address) (answer : Except String UInt64) :
    KeepsReserve coldAmount coldAddress answer (onNotified coldAmount coldAddress answer) ↔
      ∀ bal, answer = .ok bal → ¬FallsShort coldAmount bal := by
  cases answer with
  | error e => exact iff_of_true (by rfl) nofun
  | ok bal =>
    have hok : (∀ bal', Except.ok (ε := String) bal = .ok bal' → ¬FallsShort coldAmount bal') ↔ ¬FallsShort coldAmount bal :=
      ⟨fun h => h bal rfl, fun h bal' he => Except.ok.inj he ▸ h⟩
    rw [hok]
    unfold KeepsReserve onNotified
    by_cases hle : bal ≤ coldAmount
    · have hshort : ¬FallsShort coldAmount bal := fun h => by
        have hle' := UInt64.le_iff_toNat_le.mp hle
        have hlt := h.1
        omega
      have hkept : ¬bal > coldAmount := UInt64.not_lt.mpr hle
      simp only [if_pos hle, if_neg hkept]
      exact iff_of_true trivial hshort
    · have hover : coldAmount < bal := UInt64.not_le.mp hle
      simp only [if_neg hle, if_pos hover]
      constructor
      · rintro ⟨dump, hsent, -, -, -, hleaves⟩ hshort
        rcases dumpAmount_of_fallsShort hshort with hnone | hsome
        · rw [hnone] at hsent
          cases hsent
        · rw [hsome] at hsent
          obtain rfl := ColdStep.sent.inj hsent
          have hleft : ((bal.toNat : Int) - coldAmount.toNat) = coldAmount.toNat := hleaves 0
          have hlt := hshort.2
          omega
      · intro hshort
        obtain ⟨amount, hamount, hsum⟩ := dumpAmount_of_not_fallsShort hover hshort
        have hlt := UInt64.lt_iff_toNat_lt.mp hover
        rw [hamount]
        refine ⟨_, rfl, rfl, ?_, ?_, fun fee => ?_⟩
        · change 0 < amount.toNat
          omega
        · rw [UInt64.le_iff_toNat_le]
          change amount.toNat ≤ bal.toNat
          omega
        · change ((bal.toNat : Int) - amount.toNat) = coldAmount.toNat
          omega

/-- Whatever the configured amount and the balances that are seen, each notification keeps the reserve just when no balance falls
short. -/
theorem dumps_keep_reserve_iff (coldAmount : UInt64) (coldAddress : Address) (answers : List (Except String UInt64)) :
    List.Forall₂ (KeepsReserve coldAmount coldAddress) answers (coldWalletWorker coldAmount coldAddress answers) ↔
      ∀ bal, .ok bal ∈ answers → ¬FallsShort coldAmount bal := by
  induction answers with
  | nil => exact iff_of_true .nil nofun
  | cons answer answers ih =>
    have hsplit : (∀ bal, Except.ok bal ∈ answer :: answers → ¬FallsShort coldAmount bal) ↔
        (∀ bal, answer = .ok bal → ¬FallsShort coldAmount bal) ∧ ∀ bal, .ok bal ∈ answers → ¬FallsShort coldAmount bal := by
      simp only [List.mem_cons, or_imp, forall_and, eq_comm]
    rw [hsplit, ← ih, ← onNotified_keepsReserve_iff coldAddress, coldWalletWorker]
    cases hstep : onNotified coldAmount coldAddress answer with
    | kept => exact List.forall₂_cons
    | sent dump => exact List.forall₂_cons
    | panicked =>
      -- a panic keeps no reserve, and ends the loop
      have hno : ¬KeepsReserve coldAmount coldAddress answer .panicked := by
        cases answer with
        | error e => exact nofun
        | ok bal =>
          by_cases hle : bal ≤ coldAmount
          · simp [KeepsReserve, hle]
          · simp [KeepsReserve, hle]
      refine iff_of_false (fun h => ?_) (fun h => hno h.1)
      cases h with
      | cons hfirst _ => exact hno hfirst

/-- Of one and a half coins, with a reserve of one, a whole one is sent. -/
theorem reserve_not_kept : ¬∀ (coldAmount : UInt64) (coldAddress : Address) (answers : List (Except String UInt64)),
    List.Forall₂ (KeepsReserve coldAmount coldAddress) answers (coldWalletWorker coldAmount coldAddress answers) := by
  intro h
  have hrun := h 100000000 { display := "cold" } [.ok 150000000]
  cases hrun with
  | cons hfirst _ =>
    obtain ⟨dump, hsent, -, -, -, hleaves⟩ := hfirst
    obtain rfl := ColdStep.sent.inj hsent
    exact absurd (hleaves 0) (by decide)

end ColdWallet

end Hexstody
