import Hexstody.Journal
import Hexstody.Lemmas.Request
import Mathlib.Data.List.Nodup

/-!
# What the journal knows of the requests

Every request of the State was created by a row of the journal, under the same id, for the same user, in the same currency, and
what is paid never changes (`Filed`). Where ids are fresh, an id names at most one request (`Filed.unique`).
-/

namespace Hexstody

namespace Journal

variable {j j' : Journal} {o : Oracle} {up : StateUpdate}

/-- A stored update is one that the State accepts, and its row is the last. -/
theorem store_eq_some (h : j.store o up = some j') :
    ∃ res, j.state.applyUpdate o up = (j'.state, .ok res) ∧
      j'.rows = j.rows ++ [{ update := up, oracle := o, result := res }] := by
  unfold store at h
  generalize ha : j.state.applyUpdate o up = out at h
  obtain ⟨s', r⟩ := out
  cases r with
  | error e => cases h
  | ok res =>
    obtain rfl := Option.some.inj h
    exact ⟨res, rfl, rfl⟩

/-- A stored update, and what it answered. -/
theorem store_answer (h : j.store o up = some j') : j.state.applyUpdate o up = (j'.state, .ok j'.answer) := by
  obtain ⟨res, ha, hrows⟩ := store_eq_some h
  rw [answer, hrows, List.getLast?_concat]
  exact ha

theorem requests_store (h : j.store o up = some j') : j'.requests = j.requests ++ up.request?.toList := by
  obtain ⟨res, -, hr⟩ := store_eq_some h
  rw [requests, requests, hr, List.filterMap_append]
  cases hu : up.request? <;> simp [hu]

/-- An id that was used stays used. -/
theorem mem_store {i : WithdrawalRequestId} (h : j.store o up = some j') (hi : i ∈ j.requests.map (·.id)) :
    i ∈ j'.requests.map (·.id) := by
  rw [requests_store h, List.map_append]
  exact List.mem_append_left _ hi

/-- A request that is gone stays gone, as its id is not used again. -/
theorem request?_store_none {u : UserId} {c : Currency} {i : WithdrawalRequestId} (hfresh : j.Fresh (o, up))
    (h : j.store o up = some j') (hi : i ∈ j.requests.map (·.id)) (hn : j.state.request? u c i = none) :
    j'.state.request? u c i = none := by
  have hch := applyUpdate_request (store_answer h) hfresh.1 u c i
  rw [hn] at hch
  generalize j'.state.request? u c i = after at hch
  cases hch with
  | same => rfl
  | created x info hbody hid _ _ =>
    have hnew := hfresh.2.1 (.ofInfo up.created info) (by simp [StateUpdate.request?, hbody])
    rw [← hid] at hi
    exact absurd hi hnew

theorem orders_store (h : j.store o up = some j') : j'.orders = j.orders ++ up.order?.toList := by
  obtain ⟨res, -, hr⟩ := store_eq_some h
  rw [orders, orders, hr, List.filterMap_append]
  cases hu : up.order? <;> simp [hu]

/-- The request that a row created is about the same order as the one in the State. -/
def FiledAs (j : Journal) (u : UserId) (c : Currency) (i : WithdrawalRequestId) (r : WithdrawalRequest) : Prop :=
  ∃ r₀ ∈ j.requests, r₀.id = i ∧ r₀.user = u ∧ r₀.address.currency = c ∧ r₀.SameOrder r

/-- Every request of the State is filed, and no id is used twice. -/
structure Filed (j : Journal) : Prop where
  filed : ∀ {u c i r}, j.state.request? u c i = some r → j.FiledAs u c i r
  nodup : (j.requests.map (·.id)).Nodup

theorem Filed.id {u : UserId} {c : Currency} {i : WithdrawalRequestId} {r : WithdrawalRequest} (h : j.Filed)
    (hr : j.state.request? u c i = some r) : r.id = i := by
  obtain ⟨r₀, -, hi, -, -, hs⟩ := h.filed hr
  exact hs.id.trans hi

theorem Filed.user {u : UserId} {c : Currency} {i : WithdrawalRequestId} {r : WithdrawalRequest} (h : j.Filed)
    (hr : j.state.request? u c i = some r) : r.user = u := by
  obtain ⟨r₀, -, -, hu, -, hs⟩ := h.filed hr
  exact hs.user.trans hu

theorem Filed.currency {u : UserId} {c : Currency} {i : WithdrawalRequestId} {r : WithdrawalRequest} (h : j.Filed)
    (hr : j.state.request? u c i = some r) : r.address.currency = c := by
  obtain ⟨r₀, -, -, -, hc, hs⟩ := h.filed hr
  rw [hs.address, hc]

theorem Filed.mem {u : UserId} {c : Currency} {i : WithdrawalRequestId} {r : WithdrawalRequest} (h : j.Filed)
    (hr : j.state.request? u c i = some r) : i ∈ j.requests.map (·.id) := by
  obtain ⟨r₀, hm, hi, -⟩ := h.filed hr
  exact List.mem_map.mpr ⟨r₀, hm, hi⟩

/-- An id names one request, in one account. -/
theorem Filed.unique {u u' : UserId} {c c' : Currency} {i : WithdrawalRequestId} {r r' : WithdrawalRequest} (h : j.Filed)
    (hr : j.state.request? u c i = some r) (hr' : j.state.request? u' c' i = some r') : u = u' ∧ c = c' ∧ r = r' := by
  obtain ⟨r₀, hm, hi, hu, hc, -⟩ := h.filed hr
  obtain ⟨r₁, hm', hi', hu', hc', -⟩ := h.filed hr'
  have heq : r₀ = r₁ := List.inj_on_of_nodup_map h.nodup hm hm' (hi.trans hi'.symm)
  subst heq
  have hu2 := hu.symm.trans hu'
  have hc2 := hc.symm.trans hc'
  subst hu2 hc2
  exact ⟨rfl, rfl, Option.some.inj (hr.symm.trans hr')⟩

/-- A request that was filed before is filed after. -/
theorem FiledAs.store {u : UserId} {c : Currency} {i : WithdrawalRequestId} {r r' : WithdrawalRequest}
    (hf : j.FiledAs u c i r) (h : j.store o up = some j') (hs : r.SameOrder r') : j'.FiledAs u c i r' := by
  obtain ⟨r₀, hm, hi, hu, hc, h0⟩ := hf
  exact ⟨r₀, by rw [requests_store h]; exact List.mem_append_left _ hm, hi, hu, hc, h0.trans hs⟩

/-- (step) A fresh update that is stored keeps the requests filed. -/
theorem Filed.store (hf : j.Filed) (hfresh : j.Fresh (o, up)) (h : j.store o up = some j') : j'.Filed := by
  obtain ⟨res, ha, -⟩ := store_eq_some h
  refine ⟨?_, ?_⟩
  · intro u c i r' hr'
    have hch := applyUpdate_request ha hfresh.1 u c i
    rw [hr'] at hch
    generalize hb : j.state.request? u c i = before at hch
    cases hch with
    | same => exact (hf.filed hb).store h (.refl _)
    | created a info hbody hi hu hc =>
      refine ⟨.ofInfo up.created info, ?_, hi, hu, hc, .refl _⟩
      rw [requests_store h]
      exact List.mem_append_right _ (by simp [StateUpdate.request?, hbody])
    | voted r _ d confirmed _ _ _ _ hd => exact (hf.filed hb).store h (WithdrawalRequest.applyDecision_sameOrder hd)
    | completed r info _ _ => exact (hf.filed hb).store h (r.sameOrder_status _)
    | nodeRejected r info _ _ => exact (hf.filed hb).store h (r.sameOrder_status _)
    | canceled r tx _ _ => exact (hf.filed hb).store h (r.sameOrder_status _)
  · rw [requests_store h, List.map_append]
    cases hu : up.request? with
    | none => simpa using hf.nodup
    | some r =>
      have hn := hfresh.2.1 r (Option.mem_def.mpr hu)
      simp only [Option.toList_some, List.map_cons, List.map_nil]
      exact List.Nodup.append hf.nodup (List.nodup_singleton _) (by simpa using hn)

theorem Filed.init (now : NaiveDateTime) (genesisHash : String) :
    Filed { state := State.new now genesisHash, rows := [] } :=
  ⟨(fun h => by cases h), List.nodup_nil⟩

/-- (run) In every run with fresh ids the requests are filed. -/
theorem filed_of_reachable {P : Journal → Oracle × StateUpdate → Prop} (hP : ∀ j a, P j a → j.Fresh a)
    (h : machine.Reachable P j) : j.Filed := by
  refine h.invariant ?_ ?_
  · rintro _ ⟨now, genesisHash, rfl⟩
    exact Filed.init now genesisHash
  · intro j a j' _ hf hp hs
    exact hf.store (hP j a hp) hs

end Journal

end Hexstody
