import Hexstody.BtcModule
import Hexstody.Handlers
import Hexstody.History

/-!
# Whether a withdrawal of bitcoins is admitted

A withdrawal of bitcoins is to be admitted when its amount and the fee of a transaction are within the balance, and is under the
limit when they are within what is left of the limit. The handler takes the rate that the BTC module answers as one for a byte; but
a rate that the node estimated is one for 1000 bytes, so that the fee which is charged is a thousand times the fee. And the sum of
the two is of 64 bits. `withdrawal_admitted_iff` says that the handler decides as it should, and in agreement with the State, just
when the sum is less than 2^64 and, at a rate that was estimated, neither the balance nor what is left of the limit is enough for
the rate as it is meant and too little for it as it is read (`FeeSettled`).
-/

namespace Hexstody

namespace BtcModule

/-- The cost of a transaction's bytes at the rate of the node, in thousandths of a satoshi. -/
def milliCost (est : Except String EstimateSmartFeeResult) : Nat :=
  match est with
  | .ok { feeRate := some rate, .. } => rate.toNat * BTC_BYTES_PER_TRANSACTION.toNat
  | _ => 5 * 1000 * BTC_BYTES_PER_TRANSACTION.toNat

/-- The rate that the node estimates, in satoshi for 1000 bytes, if it estimates one. -/
def estimatedRate (est : Except String EstimateSmartFeeResult) : Option UInt64 :=
  match est with
  | .ok fe => fe.feeRate
  | .error _ => none

/-- The fee of a transaction, rounded up to a whole satoshi. -/
def transactionFee (est : Except String EstimateSmartFeeResult) : Nat := (milliCost est + 999) / 1000

/-- The fee that is charged: the rate that is answered, for each byte. -/
def chargedFee (est : Except String EstimateSmartFeeResult) : Nat :=
  (getFees est).feeRate.toNat * BTC_BYTES_PER_TRANSACTION.toNat

/-- An amount and the fee are within a budget just when they are in thousandths of a satoshi. -/
theorem add_transactionFee_le_iff (est : Except String EstimateSmartFeeResult) (amount budget : Nat) :
    amount + transactionFee est ≤ budget ↔ amount * 1000 + milliCost est ≤ budget * 1000 := by
  unfold transactionFee
  omega

/-- Without an estimate 5 satoshi for a byte are the fee and what is charged. -/
theorem fees_of_none {est : Except String EstimateSmartFeeResult} (h : estimatedRate est = none) :
    transactionFee est = 5120 ∧ chargedFee est = 5120 := by
  have hdefault : (5 * 1000 * BTC_BYTES_PER_TRANSACTION.toNat + 999) / 1000 = 5120 ∧
      (5 : UInt64).toNat * BTC_BYTES_PER_TRANSACTION.toNat = 5120 := by decide
  rcases est with e | ⟨_ | rate, blocks⟩
  · exact hdefault
  · exact hdefault
  · cases h

/-- An estimate is charged for each byte. -/
theorem fees_of_some {est : Except String EstimateSmartFeeResult} {rate : UInt64} (h : estimatedRate est = some rate) :
    milliCost est = rate.toNat * 1024 ∧ chargedFee est = rate.toNat * 1024 := by
  rcases est with e | ⟨_ | rate', blocks⟩
  · cases h
  · cases h
  · obtain rfl := Option.some.inj h
    exact ⟨rfl, rfl⟩

theorem transactionFee_le_chargedFee (est : Except String EstimateSmartFeeResult) : transactionFee est ≤ chargedFee est := by
  cases h : estimatedRate est with
  | none =>
    obtain ⟨hfee, hcharged⟩ := fees_of_none h
    omega
  | some rate =>
    obtain ⟨hcost, hcharged⟩ := fees_of_some h
    unfold transactionFee
    omega

end BtcModule

/-- The update creates a request under the limit. -/
def UpdateBody.IsUnderLimit : UpdateBody → Prop
  | .createWithdrawalRequest info => info.requestType = .underLimit
  | _ => False

namespace Handlers

open BtcModule

/-- A withdrawal of bitcoins from an account is decided exactly, and as the State decides it. -/
structure Admits (user : UserInfo) (info : UserCurrencyInfo) (req : UserWithdrawRequest)
    (est : Except String EstimateSmartFeeResult) (id : Uuid) : Prop where
  accepted : (∃ b, postWithdraw user req (some (getFees est).feeRate) id = .ok b) ↔
    req.amount.toNat + transactionFee est ≤ info.finalizedBalance.toNat
  underLimit : ∀ b, postWithdraw user req (some (getFees est).feeRate) id = .ok b →
    (b.IsUnderLimit ↔ req.amount.toNat + transactionFee est ≤ info.limitInfo.limit.amount.toNat - info.limitInfo.spent.toNat)
  /-- The product, the sum and the difference that the handler computes are exact. -/
  product : ((getFees est).feeRate * BTC_BYTES_PER_TRANSACTION).toNat = chargedFee est
  sum : (requiredAmount req.amount (getFees est).feeRate).toNat = req.amount.toNat + chargedFee est
  rest : (info.limitInfo.limit.amount - info.limitInfo.spent).toNat =
    info.limitInfo.limit.amount.toNat - info.limitInfo.spent.toNat
  /-- A State with the same account computes an exact sum too, and does not find the limit exceeded. -/
  agreed : ∀ b, postWithdraw user req (some (getFees est).feeRate) id = .ok b → b.IsUnderLimit →
    (info.limitInfo.spent + req.amount).toNat = info.limitInfo.spent.toNat + req.amount.toNat ∧
      ∀ (s : State) o created, s.currency? user.username .btc = some info →
        (s.applyUpdate o { created := created, body := b }).2 ≠ .error .limitOverflow

/-- A budget that is enough for an amount and 1024 bytes at a rate for 1000 bytes, and too little at that rate for each byte. -/
def BetweenRates (amount rate budget : Nat) : Prop := amount * 1000 + rate * 1024 ≤ budget * 1000 ∧ budget < amount + rate * 1024

/-- Without an estimate the amount and 1024 bytes at 5 satoshi are less than 2^64. With an estimate they are at that rate for each
byte, and neither the balance is between the rates nor, if the balance is enough, what is left of the limit. -/
def FeeSettled (info : UserCurrencyInfo) (req : UserWithdrawRequest) (est : Except String EstimateSmartFeeResult) : Prop :=
  match estimatedRate est with
  | none => req.amount.toNat + 5120 < 2 ^ 64
  | some rate =>
    req.amount.toNat + rate.toNat * 1024 < 2 ^ 64 ∧
      ¬BetweenRates req.amount.toNat rate.toNat info.finalizedBalance.toNat ∧
        (req.amount.toNat + rate.toNat * 1024 ≤ info.finalizedBalance.toNat →
          ¬BetweenRates req.amount.toNat rate.toNat (info.limitInfo.limit.amount.toNat - info.limitInfo.spent.toNat))

section

variable {user : UserInfo} {info : UserCurrencyInfo} {req : UserWithdrawRequest} {est : Except String EstimateSmartFeeResult}
  {id : Uuid} {addr : BtcAddress} {rate : UInt64}

/-- The request that a withdrawal of bitcoins makes. -/
def newBtcRequest (user : UserInfo) (info : UserCurrencyInfo) (req : UserWithdrawRequest) (rate : UInt64) (id : Uuid) :
    WithdrawalRequestInfo where
  id := id
  user := user.username
  address := req.address
  amount := req.amount
  requestType :=
    if info.limitInfo.limit.amount - info.limitInfo.spent ≥ requiredAmount req.amount rate then .underLimit else .overLimit

/-- What the handler does, of bitcoins. -/
theorem postWithdraw_btc (haddr : req.address = .btc addr) (hinfo : user.currencies.get? .btc = some info) :
    postWithdraw user req (some rate) id =
      if requiredAmount req.amount rate ≤ info.finalizedBalance then
        .ok (.createWithdrawalRequest (newBtcRequest user info req rate id))
      else .error (.insufficientFunds .btc) := by
  unfold postWithdraw
  simp only [haddr, hinfo, newBtcRequest]

/-- A withdrawal is accepted just when the balance is enough. -/
theorem exists_postWithdraw_btc_iff (haddr : req.address = .btc addr) (hinfo : user.currencies.get? .btc = some info) :
    (∃ b, postWithdraw user req (some rate) id = .ok b) ↔ requiredAmount req.amount rate ≤ info.finalizedBalance := by
  rw [postWithdraw_btc haddr hinfo]
  by_cases h : requiredAmount req.amount rate ≤ info.finalizedBalance
  · rw [if_pos h]
    exact iff_of_true ⟨_, rfl⟩ h
  · rw [if_neg h]
    exact iff_of_false (fun ⟨_, hb⟩ => by cases hb) h

theorem isUnderLimit_newBtcRequest :
    (UpdateBody.createWithdrawalRequest (newBtcRequest user info req rate id)).IsUnderLimit ↔
      requiredAmount req.amount rate ≤ info.limitInfo.limit.amount - info.limitInfo.spent := by
  change (newBtcRequest user info req rate id).requestType = .underLimit ↔ _
  unfold newBtcRequest
  dsimp only
  split
  · rename_i hle
    exact iff_of_true rfl hle
  · rename_i hlt
    exact iff_of_false (fun h => by cases h) hlt

/-- The product and the sum that the handler computes are exact when they are less than 2^64. -/
theorem toNat_requiredAmount {amount rate : UInt64} (h : amount.toNat + rate.toNat * 1024 < 2 ^ 64) :
    (rate * BTC_BYTES_PER_TRANSACTION).toNat = rate.toNat * 1024 ∧
      (requiredAmount amount rate).toNat = amount.toNat + rate.toNat * 1024 := by
  have hprod : (rate * BTC_BYTES_PER_TRANSACTION).toNat = rate.toNat * 1024 := by
    rw [UInt64.toNat_mul]
    exact Nat.mod_eq_of_lt (lt_of_le_of_lt (Nat.le_add_left _ _) h)
  refine ⟨hprod, ?_⟩
  rw [requiredAmount, UInt64.toNat_add, hprod]
  exact Nat.mod_eq_of_lt h

/-- The State does not find the limit exceeded by a request that is within it by the State's own sum. -/
theorem applyUpdate_ne_limitOverflow {s : State} {o : Oracle} {created : NaiveDateTime} (haddr : req.address = .btc addr)
    (hacc : s.currency? user.username .btc = some info)
    (hlim : info.limitInfo.spent + req.amount ≤ info.limitInfo.limit.amount) :
    (s.applyUpdate o { created := created, body := .createWithdrawalRequest (newBtcRequest user info req rate id) }).2 ≠
      .error .limitOverflow := by
  obtain ⟨ui, hui, hcur⟩ := Option.bind_eq_some_iff.mp hacc
  have hcurrency : (newBtcRequest user info req rate id).address.currency = .btc := congrArg CurrencyAddress.currency haddr
  have hok : ∀ e, (s.withNewWithdrawalRequest created (newBtcRequest user info req rate id)).2 ≠ .error e := by
    intro e
    unfold State.withNewWithdrawalRequest
    simp only [WithdrawalRequest.ofInfo, hcurrency]
    have hui' : s.users.get? (newBtcRequest user info req rate id).user = some ui := hui
    have hlim' : ¬info.limitInfo.limit.amount < info.limitInfo.spent + (newBtcRequest user info req rate id).amount :=
      UInt64.not_lt.mpr hlim
    rw [hui']
    dsimp only
    rw [hcur]
    dsimp only
    split
    · rw [if_neg hlim']
      exact fun h => by cases h
    · exact fun h => by cases h
  intro hc
  change (State.stamped created (s.withNewWithdrawalRequest created (newBtcRequest user info req rate id)) _).2 = _ at hc
  generalize hout : s.withNewWithdrawalRequest created (newBtcRequest user info req rate id) = out at hc hok
  obtain ⟨s', r⟩ := out
  cases r with
  | ok a => cases hc
  | error e => exact hok e rfl

/-- The rate is settled just when the amount and the fee that is charged are less than 2^64, and it makes no difference to the
balance, nor to the limit if the balance is enough, that this fee is charged. -/
theorem feeSettled_iff : FeeSettled info req est ↔ req.amount.toNat + chargedFee est < 2 ^ 64 ∧
    ¬(req.amount.toNat + transactionFee est ≤ info.finalizedBalance.toNat ∧
      info.finalizedBalance.toNat < req.amount.toNat + chargedFee est) ∧
    (req.amount.toNat + chargedFee est ≤ info.finalizedBalance.toNat →
      ¬(req.amount.toNat + transactionFee est ≤ info.limitInfo.limit.amount.toNat - info.limitInfo.spent.toNat ∧
        info.limitInfo.limit.amount.toNat - info.limitInfo.spent.toNat < req.amount.toNat + chargedFee est)) := by
  unfold FeeSettled
  cases h : estimatedRate est with
  | none =>
    obtain ⟨hfee, hcharged⟩ := fees_of_none h
    rw [hfee, hcharged]
    dsimp only
    omega
  | some rate =>
    obtain ⟨hcost, hcharged⟩ := fees_of_some h
    rw [add_transactionFee_le_iff, add_transactionFee_le_iff, hcost, hcharged]
    exact Iff.rfl

/-- Whatever the balance, the limit, what is spent of it, the amount and the rate, a withdrawal of bitcoins is decided exactly and
in agreement with the State just when the rate is settled. -/
theorem withdrawal_admitted_iff (user : UserInfo) (info : UserCurrencyInfo) (req : UserWithdrawRequest) (addr : BtcAddress)
    (est : Except String EstimateSmartFeeResult) (id : Uuid) (haddr : req.address = .btc addr)
    (hinfo : user.currencies.get? .btc = some info) (hspent : info.limitInfo.spent ≤ info.limitInfo.limit.amount) :
    Admits user info req est id ↔ FeeSettled info req est := by
  have hfee := transactionFee_le_chargedFee est
  have hrest : (info.limitInfo.limit.amount - info.limitInfo.spent).toNat =
      info.limitInfo.limit.amount.toNat - info.limitInfo.spent.toNat := UInt64.toNat_sub_of_le _ _ hspent
  have hlt := info.limitInfo.limit.amount.toNat_lt
  rw [feeSettled_iff]
  constructor
  · intro h
    have hfits : req.amount.toNat + chargedFee est < 2 ^ 64 := h.sum ▸ (requiredAmount _ _).toNat_lt
    have haccepted := h.accepted
    rw [exists_postWithdraw_btc_iff haddr hinfo, UInt64.le_iff_toNat_le, h.sum] at haccepted
    refine ⟨hfits, by omega, fun hbal => ?_⟩
    have hle : requiredAmount req.amount (getFees est).feeRate ≤ info.finalizedBalance := by
      rw [UInt64.le_iff_toNat_le, h.sum]
      exact hbal
    have hunder := h.underLimit _ ((postWithdraw_btc haddr hinfo).trans (if_pos hle))
    rw [isUnderLimit_newBtcRequest, UInt64.le_iff_toNat_le, h.sum, hrest] at hunder
    omega
  · rintro ⟨hfits, hbalance, hlimit⟩
    have hcharged : (getFees est).feeRate.toNat * 1024 = chargedFee est := rfl
    obtain ⟨hprod, hsum⟩ := toNat_requiredAmount (hcharged ▸ hfits)
    rw [hcharged] at hprod hsum
    have hbody : ∀ {b}, postWithdraw user req (some (getFees est).feeRate) id = .ok b →
        b = .createWithdrawalRequest (newBtcRequest user info req (getFees est).feeRate id) ∧
          req.amount.toNat + chargedFee est ≤ info.finalizedBalance.toNat := by
      intro b hb
      have hle := (exists_postWithdraw_btc_iff haddr hinfo).mp ⟨b, hb⟩
      rw [postWithdraw_btc haddr hinfo, if_pos hle] at hb
      rw [UInt64.le_iff_toNat_le, hsum] at hle
      exact ⟨(Except.ok.inj hb).symm, hle⟩
    have hunder : (UpdateBody.createWithdrawalRequest (newBtcRequest user info req (getFees est).feeRate id)).IsUnderLimit ↔
        req.amount.toNat + chargedFee est ≤ info.limitInfo.limit.amount.toNat - info.limitInfo.spent.toNat := by
      rw [isUnderLimit_newBtcRequest, UInt64.le_iff_toNat_le, hsum, hrest]
    refine ⟨?_, fun b hb => ?_, hprod, hsum, hrest, fun b hb hub => ?_⟩
    · rw [exists_postWithdraw_btc_iff haddr hinfo, UInt64.le_iff_toNat_le, hsum]
      omega
    · obtain ⟨rfl, hle⟩ := hbody hb
      have hrate := hlimit hle
      rw [hunder]
      omega
    · obtain ⟨rfl, -⟩ := hbody hb
      have hleft := hunder.mp hub
      have hsp := UInt64.le_iff_toNat_le.mp hspent
      have hexact : (info.limitInfo.spent + req.amount).toNat = info.limitInfo.spent.toNat + req.amount.toNat := by
        rw [UInt64.toNat_add]
        exact Nat.mod_eq_of_lt (by omega)
      refine ⟨hexact, fun s o created hacc => applyUpdate_ne_limitOverflow haddr hacc ?_⟩
      rw [UInt64.le_iff_toNat_le, hexact]
      omega

end

end Handlers

namespace Sample

/-- Alice signs up, gets a deposit, and two operators confirm a limit for her. -/
def account (amount : Int64) (limit : UInt64) : List (Oracle × StateUpdate) :=
  signup ++ [upd 3 (.depositAddress { userId := alice, address := .btc addr }), upd 4 (.updateBtcTx (deposit amount)),
    upd 5 (.limitsChangeRequest { user := alice, currency := .btc, limit := { amount := limit, span := .day } }),
    upd 6 (.limitChangeDecision (limitVote 1 { amount := limit, span := .day })),
    upd 7 (.limitChangeDecision (limitVote 2 { amount := limit, span := .day }))]

/-- A withdrawal of bitcoins. -/
def withdrawalOf (amount : UInt64) : UserWithdrawRequest := { address := .btc addr, amount := amount }

/-- A node that estimates a satoshi for a byte. -/
def estimate : Except String BtcModule.EstimateSmartFeeResult := .ok { feeRate := some 1000, blocks := 2 }

/-- A node that has no estimate. -/
def noEstimate : Except String BtcModule.EstimateSmartFeeResult := .error "no estimate"

/-- What is seen of an account of bitcoins of alice. -/
def hasAccount (q : UserInfo → UserCurrencyInfo → Bool) (j : Journal) : Bool :=
  (j.state.users.get? alice).any fun user => (user.currencies.get? .btc).any fun info => q user info

theorem hasAccount_iff {q : UserInfo → UserCurrencyInfo → Bool} {j : Journal} : hasAccount q j = true ↔
    ∃ user info, j.state.users.get? alice = some user ∧ user.currencies.get? .btc = some info ∧ q user info = true := by
  simp only [hasAccount, Option.any_eq_true]
  constructor
  · rintro ⟨user, hu, info, hi, hq⟩
    exact ⟨user, info, hu, hi, hq⟩
  · rintro ⟨user, info, hu, hi, hq⟩
    exact ⟨user, hu, info, hi, hq⟩

end Sample

namespace Handlers

open BtcModule Sample

/-- With a balance and a limit that cover a thousand times the fee, alice's withdrawal is decided as it should be. -/
theorem withdrawal_admitted : ∃ (s : State) (user : UserInfo) (info : UserCurrencyInfo), s.Reached State.anyUpdate ∧
    s.users.get? alice = some user ∧ user.currencies.get? .btc = some info ∧ info.finalizedBalance = 2000000 ∧
      info.limitInfo.limit.amount = 1600000 ∧ Admits user info (withdrawalOf 500000) estimate (uuid 3) := by
  obtain ⟨j, hj, hq⟩ := Machine.exists_reachable (P := fun (_ : Journal) (a : Oracle × StateUpdate) => ¬a.2.body.IsSnapshot)
    (account 2000000 1600000)
    (q := hasAccount fun _ info => decide (info.finalizedBalance = 2000000 ∧
      info.limitInfo.limit.amount = 1600000 ∧ info.limitInfo.spent = 0)) start_init (by decide)
  obtain ⟨user, info, hu, hi, hq⟩ := hasAccount_iff.mp hq
  obtain ⟨hbal, hlim, hspent⟩ := of_decide_eq_true hq
  have hr : j.state.Reached State.anyUpdate := ⟨_, Journal.madeBy_updates (fun _ _ h => ⟨trivial, h⟩) hj⟩
  refine ⟨j.state, user, info, hr, hu, hi, hbal, hlim, ?_⟩
  refine (withdrawal_admitted_iff user info (withdrawalOf 500000) addr estimate (uuid 3) rfl hi ?_).mpr ?_
  · rw [hspent, hlim]
    decide
  · change _ ∧ ¬(_ ∧ _) ∧ (_ → ¬(_ ∧ _))
    rw [hbal, hlim, hspent]
    decide

/-- Alice's balance covers her withdrawal and the fee, and she is refused. Without an estimate, a withdrawal of nearly 2^64 satoshi
is accepted from her. -/
theorem withdrawal_refused :
    (∃ (s : State) (user : UserInfo) (info : UserCurrencyInfo), s.Reached State.anyUpdate ∧ s.users.get? alice = some user ∧
      user.currencies.get? .btc = some info ∧ info.finalizedBalance = 100000 ∧ 50000 + transactionFee estimate = 51024 ∧
        postWithdraw user (withdrawalOf 50000) (some (getFees estimate).feeRate) (uuid 3) = .error (.insufficientFunds .btc) ∧
          ∃ b, postWithdraw user (withdrawalOf 18446744073709546496) (some (getFees noEstimate).feeRate) (uuid 3) = .ok b) ∧
    ¬∀ (user : UserInfo) (info : UserCurrencyInfo) (req : UserWithdrawRequest) (addr : BtcAddress)
      (est : Except String EstimateSmartFeeResult) (id : Uuid), req.address = .btc addr →
        user.currencies.get? .btc = some info → info.limitInfo.spent ≤ info.limitInfo.limit.amount →
          Admits user info req est id := by
  obtain ⟨j, hj, hq⟩ := Machine.exists_reachable (P := fun (_ : Journal) (a : Oracle × StateUpdate) => ¬a.2.body.IsSnapshot)
    (account 100000 100000)
    (q := hasAccount fun _ info => decide (info.finalizedBalance = 100000 ∧
      info.limitInfo.limit.amount = 100000 ∧ info.limitInfo.spent = 0)) start_init (by decide)
  obtain ⟨user, info, hu, hi, hq⟩ := hasAccount_iff.mp hq
  obtain ⟨hbal, hlim, hspent⟩ := of_decide_eq_true hq
  have hr : j.state.Reached State.anyUpdate := ⟨_, Journal.madeBy_updates (fun _ _ h => ⟨trivial, h⟩) hj⟩
  have hrefused : ¬requiredAmount (withdrawalOf 50000).amount (getFees estimate).feeRate ≤ info.finalizedBalance := by
    rw [hbal]
    decide
  have haccepted : requiredAmount (withdrawalOf 18446744073709546496).amount (getFees noEstimate).feeRate ≤
      info.finalizedBalance := by
    rw [hbal]
    decide
  refine ⟨⟨j.state, user, info, hr, hu, hi, hbal, by decide, ?_, ?_⟩, fun h => ?_⟩
  · exact (postWithdraw_btc rfl hi).trans (if_neg hrefused)
  · exact (exists_postWithdraw_btc_iff rfl hi).mpr haccepted
  · have hadmits := h user info (withdrawalOf 50000) addr estimate (uuid 3) rfl hi (by rw [hspent, hlim]; decide)
    refine hrefused ((exists_postWithdraw_btc_iff rfl hi).mp (hadmits.accepted.mpr ?_))
    rw [hbal]
    decide

end Handlers

end Hexstody
