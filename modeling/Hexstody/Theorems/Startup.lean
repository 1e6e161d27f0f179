import Hexstody.Runner
import Mathlib.Tactic.Tauto

/-!
# That the hot wallet starts, and ends

Whoever started the hot wallet is notified once, as soon as both servers have lifted off, and not before (`start_announced`): so never
if an API is disabled, or fails before it lifts off, and then `run_hot_wallet` does not return either until the abort is requested. When
it is before that, nothing is left running (`shutdown_completes`).
-/

namespace Hexstody

namespace Runner

variable {enabled : ApiType → Bool} {r r' : Runner} {a : ApiType}

/-- Both servers have lifted off. -/
def LiftedOff (r : Runner) : Prop := ∀ a, (r.api a).server.lifted = true

/-- Nothing is left to do, unless something happens outside. -/
def Settled (enabled : ApiType → Bool) (r : Runner) : Prop := ∀ act : RunnerAction, act.own = true → r.step enabled act = none

/-! ## The invariant -/

/-- The notifications of the servers, as the body of `serve_apis` uses them, and what the phases say of the tasks. -/
structure Inv (enabled : ApiType → Bool) (r : Runner) : Prop where
  tokens : ∀ a, (r.api a).start.tokens + (r.body.passed a).toNat = (r.api a).server.lifted.toNat
  asked : ∀ a, r.body = .waits a → (r.api a).start.Asked ()
  started : r.started = if r.body = .done then 1 else 0
  idle : ∀ a, (r.api a).server = .idle ↔ r.body = .idle
  disabled : ∀ a, r.body ≠ .idle → ((r.api a).server = .disabled ↔ enabled a = false)
  early : r.phase.early = true → r.body = .idle
  finished : r.phase = .finished → r.body = .done ∧ ∀ a, (r.api a).server.isOver = true
  aborting : ∀ a, (r.api a).aborting = true ↔ r.phase = .failed .aborted
  workers : r.workers = .running ↔ r.phase = .serving ∨ r.phase = .finished
  requested : r.phase = .failed .aborted → r.abortRequested = true

theorem inv_new : new.Inv enabled where
  tokens _ := rfl
  asked _ h := by cases h
  started := rfl
  idle _ := iff_of_true rfl rfl
  disabled _ h := absurd rfl h
  early _ := rfl
  finished h := by cases h
  aborting _ := iff_of_false Bool.false_ne_true (by decide)
  workers := iff_of_false (by decide) (by decide)
  requested h := by cases h

namespace Inv

/-- Until `serve_apis` is polled, only the phase changes. -/
theorem before (h : r.Inv enabled) (hidle : r.body = .idle) {phase : RunPhase} {workers : Workers}
    (hphase : r.phase ≠ .failed .aborted) (hfin : phase ≠ .finished) (hab : phase ≠ .failed .aborted)
    (hw : workers = .running ↔ phase = .serving) : Inv enabled { r with phase := phase, workers := workers } where
  tokens := h.tokens
  asked := h.asked
  started := h.started
  idle := h.idle
  disabled := h.disabled
  early _ := hidle
  finished hf := absurd hf hfin
  aborting a := iff_of_false (fun ha => hphase ((h.aborting a).mp ha)) hab
  workers := by
    rw [hw]
    exact ⟨Or.inl, fun hor => hor.resolve_right hfin⟩
  requested hf := absurd hf hab

theorem launch (h : r.Inv enabled) (hphase : r.phase = .serving) (hidle : r.body = .idle) : (r.launchServers enabled).Inv enabled where
  tokens a := by
    have ht := h.tokens a
    rw [(h.idle a).mpr hidle, hidle] at ht
    simp only [launchServers]
    cases enabled a <;> cases a <;> exact ht
  asked _ ha := by cases ha
  started := by
    rw [show (r.launchServers enabled).started = r.started from rfl, h.started, hidle]
    rfl
  idle a := by
    refine iff_of_false ?_ ServeBody.noConfusion
    simp only [launchServers]
    cases enabled a <;> exact Server.noConfusion
  disabled a _ := by
    simp only [launchServers]
    cases enabled a <;> simp
  early he := by
    rw [show (r.launchServers enabled).phase = r.phase from rfl, hphase] at he
    cases he
  finished hf := by
    rw [show (r.launchServers enabled).phase = r.phase from rfl, hphase] at hf
    cases hf
  aborting := h.aborting
  workers := h.workers
  requested := h.requested

/-- An API changes, and the body does not wait for it, or still does. -/
theorem api (h : r.Inv enabled) {x : Api} (ht : x.start.tokens + (r.body.passed a).toNat = x.server.lifted.toNat)
    (hasked : (r.api a).start.Asked () → x.start.Asked ()) (hrun : (r.api a).server.running = true) (hidle : x.server ≠ .idle)
    (hdis : x.server ≠ .disabled) (hab : x.aborting = (r.api a).aborting) : (r.setApi a x).Inv enabled := by
  have hbody : r.body ≠ .idle := by
    intro hb
    rw [(h.idle a).mpr hb] at hrun
    cases hrun
  have hother : ∀ {P : ApiType → Api → Prop}, (∀ b, P b (r.api b)) → P a x → ∀ b, P b ((r.setApi a x).api b) := by
    intro P hP hx b
    by_cases hb : b = a
    · subst hb
      rwa [setApi_self]
    · rw [setApi_of_ne r x hb]
      exact hP b
  refine ⟨hother (P := fun b y => y.start.tokens + (r.body.passed b).toNat = y.server.lifted.toNat) h.tokens ht,
    hother (P := fun b y => r.body = .waits b → y.start.Asked ()) h.asked (fun hb => hasked (h.asked a hb)), h.started,
    hother (P := fun _ y => y.server = .idle ↔ r.body = .idle) h.idle (iff_of_false hidle hbody), ?_, h.early, ?_,
    hother (P := fun _ y => y.aborting = true ↔ r.phase = .failed .aborted) h.aborting (hab ▸ h.aborting a), h.workers, h.requested⟩
  · refine hother (P := fun b y => r.body ≠ .idle → (y.server = .disabled ↔ enabled b = false)) h.disabled fun hne => ?_
    refine iff_of_false hdis fun hen => ?_
    rw [(h.disabled a hne).mpr hen] at hrun
    cases hrun
  · intro hfin
    have hover := (h.finished hfin).2 a
    rw [Server.isOver_of_running hrun] at hover
    cases hover

theorem lift (h : r.Inv enabled) (hs : (r.api a).server = .launching) : (r.lift a).Inv enabled := by
  have ht := h.tokens a
  rw [hs] at ht
  have hzero := Nat.add_eq_zero_iff.mp ht
  refine h.api ?_ Notify.asked_notifyOne.mpr (by rw [hs]; rfl) Server.noConfusion Server.noConfusion rfl
  rw [hzero.2, Notify.tokens_notifyOne_of_zero hzero.1]
  rfl

theorem endServer (h : r.Inv enabled) (hs : (r.api a).server.running = true) : (r.endServer a).Inv enabled := by
  refine h.api ?_ id hs Server.noConfusion Server.noConfusion rfl
  exact h.tokens a

/-- What the body has passed when it goes on. -/
theorem passed_after {body : ServeBody} (hb : body = .asks a ∨ body = .waits a) (b : ApiType) :
    (ServeBody.after a).passed b = (decide (b = a) || body.passed b) := by
  rcases hb with rfl | rfl <;> cases a <;> cases b <;> rfl

theorem passed_self {body : ServeBody} (hb : body = .asks a ∨ body = .waits a) : body.passed a = false := by
  rcases hb with rfl | rfl <;> cases a <;> rfl

theorem pass (h : r.Inv enabled) (hphase : r.phase = .serving) (hb : r.body = .asks a ∨ r.body = .waits a) {start : Notify Unit}
    (hstart : start.tokens + 1 = (r.api a).start.tokens) : (r.pass a start).Inv enabled := by
  have hidle : r.body ≠ .idle := by
    rcases hb with hb | hb <;> rw [hb] <;> exact ServeBody.noConfusion
  have hdone : r.body ≠ .done := by
    rcases hb with hb | hb <;> rw [hb] <;> exact ServeBody.noConfusion
  have hafter : ServeBody.after a ≠ .idle := by cases a <;> exact ServeBody.noConfusion
  have hserver : ∀ b, ((r.pass a start).api b).server = (r.api b).server ∧ ((r.pass a start).api b).aborting = (r.api b).aborting := by
    intro b
    change ((r.setApi a _).api b).server = _ ∧ ((r.setApi a _).api b).aborting = _
    by_cases hba : b = a
    · subst hba
      rw [setApi_self]
      exact ⟨rfl, rfl⟩
    · rw [setApi_of_ne r _ hba]
      exact ⟨rfl, rfl⟩
  refine ⟨fun b => ?_, fun b hwaits => ?_, ?_, fun b => ?_, fun b _ => ?_, fun he => ?_, fun hfin => ?_, fun b => ?_, h.workers,
    h.requested⟩
  · have ht := h.tokens b
    rw [(hserver b).1, show (r.pass a start).body = .after a from rfl, passed_after hb]
    change ((r.setApi a _).api b).start.tokens + _ = _
    by_cases hba : b = a
    · subst hba
      rw [passed_self hb] at ht
      rw [setApi_self, ← ht, ← hstart]
      simp
    · rw [setApi_of_ne r _ hba, decide_eq_false hba]
      exact ht
  · cases a <;> cases hwaits
  · have hstarted := h.started
    rw [if_neg hdone] at hstarted
    cases a with
    | publicApi => exact hstarted
    | operatorApi =>
      change r.started + 1 = 1
      rw [hstarted]
  · rw [(hserver b).1]
    exact iff_of_false (fun hs => hidle ((h.idle b).mp hs)) hafter
  · rw [(hserver b).1]
    exact h.disabled b hidle
  · rw [show (r.pass a start).phase = r.phase from rfl, hphase] at he
    cases he
  · rw [show (r.pass a start).phase = r.phase from rfl, hphase] at hfin
    cases hfin
  · rw [(hserver b).2]
    exact h.aborting b

theorem wait (h : r.Inv enabled) (hphase : r.phase = .serving) (hb : r.body = .asks a) (hp : ¬(r.api a).start.permit = true) :
    Inv enabled { r.setApi a { r.api a with start := (r.api a).start.notified () } with body := .waits a } := by
  have hserver : ∀ b, ((r.setApi a { r.api a with start := (r.api a).start.notified () }).api b).server = (r.api b).server ∧
      ((r.setApi a { r.api a with start := (r.api a).start.notified () }).api b).aborting = (r.api b).aborting ∧
      ((r.setApi a { r.api a with start := (r.api a).start.notified () }).api b).start.tokens = (r.api b).start.tokens := by
    intro b
    by_cases hba : b = a
    · subst hba
      rw [setApi_self]
      exact ⟨rfl, rfl, Notify.tokens_notified_of_not hp⟩
    · rw [setApi_of_ne r _ hba]
      exact ⟨rfl, rfl, rfl⟩
  have hidle : r.body ≠ .idle := by rw [hb]; exact ServeBody.noConfusion
  refine ⟨fun b => ?_, fun b hwaits => ?_, ?_, fun b => ?_, fun b _ => ?_, fun he => ?_, fun hfin => ?_, fun b => ?_, h.workers,
    h.requested⟩
  · have ht := h.tokens b
    rw [hb] at ht
    change ((r.setApi a _).api b).start.tokens + _ = ((r.setApi a _).api b).server.lifted.toNat
    rw [(hserver b).2.2, (hserver b).1, ServeBody.passed_waits, ← ht]
  · obtain rfl := ServeBody.waits.inj hwaits
    change ((r.setApi a _).api a).start.Asked ()
    rw [setApi_self]
    exact Notify.asked_notified hp
  · have hstarted := h.started
    rw [hb] at hstarted
    exact hstarted
  · change ((r.setApi a _).api b).server = .idle ↔ _
    rw [(hserver b).1]
    exact iff_of_false (fun hs => hidle ((h.idle b).mp hs)) ServeBody.noConfusion
  · change ((r.setApi a _).api b).server = .disabled ↔ _
    rw [(hserver b).1]
    exact h.disabled b hidle
  · change r.phase.early = true at he
    rw [hphase] at he
    cases he
  · change r.phase = .finished at hfin
    rw [hphase] at hfin
    cases hfin
  · change ((r.setApi a _).api b).aborting = true ↔ _
    rw [(hserver b).2.1]
    exact h.aborting b

theorem stepBody (h : r.Inv enabled) (hphase : r.phase = .serving) (hs : r.stepBody = some r') : r'.Inv enabled := by
  unfold Runner.stepBody at hs
  cases hb : r.body with
  | idle =>
    rw [hb] at hs
    cases hs
  | asks a =>
    rw [hb] at hs
    by_cases hp : (r.api a).start.permit = true
    · simp only [hp, if_true] at hs
      obtain rfl := Option.some.inj hs
      exact h.pass hphase (Or.inl hb) (Notify.tokens_notified hp)
    · simp only [hp] at hs
      obtain rfl := Option.some.inj hs
      exact h.wait hphase hb hp
  | waits a =>
    rw [hb] at hs
    obtain ⟨start, hwake, rfl⟩ := Option.map_eq_some_iff.mp hs
    exact h.pass hphase (Or.inr hb) (Notify.tokens_wake hwake)
  | done =>
    rw [hb] at hs
    cases hs

theorem exit (h : r.Inv enabled) (hab : r.abortRequested = true) : r.exit.Inv enabled where
  tokens := h.tokens
  asked := h.asked
  started := h.started
  idle := h.idle
  disabled := h.disabled
  early he := by cases he
  finished hf := by cases hf
  aborting _ := iff_of_true rfl rfl
  workers := iff_of_false Workers.noConfusion fun hor => by rcases hor with hf | hf <;> cases hf
  requested _ := hab

theorem finish (h : r.Inv enabled) (hphase : r.phase = .serving) (hdone : r.body = .done)
    (hover : ∀ a, (r.api a).server.isOver = true) : Inv enabled { r with phase := .finished } where
  tokens := h.tokens
  asked := h.asked
  started := h.started
  idle := h.idle
  disabled := h.disabled
  early he := by cases he
  finished _ := ⟨hdone, hover⟩
  aborting a := by
    refine iff_of_false (fun ha => ?_) fun hf => by cases hf
    have hf := (h.aborting a).mp ha
    rw [hphase] at hf
    cases hf
  workers := iff_of_true (h.workers.mpr (Or.inl hphase)) (Or.inr rfl)
  requested hf := by cases hf

theorem abort (h : r.Inv enabled) : Inv enabled { r with abortRequested := true } :=
  { h with requested := fun _ => rfl }

theorem goesOn (h : r.goesOn = true) : r.phase = .serving ∧ r.abortRequested = false := by
  unfold Runner.goesOn at h
  simpa using h

/-- (step) -/
theorem step (h : r.Inv enabled) {act : RunnerAction} (hs : r.step enabled act = some r') : r'.Inv enabled := by
  cases act with
  | connect ok =>
    obtain ⟨hphase, hs⟩ := Option.ite_none_right_eq_some.mp hs
    obtain rfl := Option.some.inj hs
    have hw : ¬r.workers = .running := by
      rw [h.workers, hphase]
      decide
    have hidle := h.early (by rw [hphase]; rfl)
    cases ok with
    | true => exact h.before hidle (by rw [hphase]; decide) (by decide) (by decide) (iff_of_false hw (by decide))
    | false => exact h.before hidle (by rw [hphase]; decide) (by decide) (by decide) (iff_of_false hw (by decide))
  | reconstruct ok =>
    obtain ⟨hphase, hs⟩ := Option.ite_none_right_eq_some.mp hs
    have hw : ¬r.workers = .running := by
      rw [h.workers, hphase]
      decide
    have hidle := h.early (by rw [hphase]; rfl)
    cases ok with
    | true =>
      obtain rfl := Option.some.inj hs
      exact h.before hidle (by rw [hphase]; decide) (by decide) (by decide) (iff_of_true rfl rfl)
    | false =>
      obtain rfl := Option.some.inj hs
      exact h.before hidle (by rw [hphase]; decide) (by decide) (by decide) (iff_of_false hw (by decide))
  | launch =>
    obtain ⟨⟨hgo, hidle⟩, hs⟩ := Option.ite_none_right_eq_some.mp hs
    obtain rfl := Option.some.inj hs
    exact h.launch (goesOn hgo).1 hidle
  | liftoff a =>
    obtain ⟨⟨hserver, -⟩, hs⟩ := Option.ite_none_right_eq_some.mp hs
    obtain rfl := Option.some.inj hs
    exact h.lift hserver
  | stop a =>
    obtain ⟨hserver, hs⟩ := Option.ite_none_right_eq_some.mp hs
    obtain rfl := Option.some.inj hs
    exact h.endServer hserver
  | kill a =>
    obtain ⟨⟨hserver, -⟩, hs⟩ := Option.ite_none_right_eq_some.mp hs
    obtain rfl := Option.some.inj hs
    exact h.endServer hserver
  | body =>
    obtain ⟨hgo, hs⟩ := Option.ite_none_right_eq_some.mp hs
    exact h.stepBody (goesOn hgo).1 hs
  | finish =>
    obtain ⟨⟨hgo, hdone, hover⟩, hs⟩ := Option.ite_none_right_eq_some.mp hs
    obtain rfl := Option.some.inj hs
    refine h.finish (goesOn hgo).1 hdone fun a => hover a ?_
    cases a <;> decide
  | abort =>
    obtain rfl := Option.some.inj hs
    exact h.abort
  | exit =>
    obtain ⟨⟨-, hab⟩, hs⟩ := Option.ite_none_right_eq_some.mp hs
    obtain rfl := Option.some.inj hs
    exact h.exit hab

end Inv

/-- (run) -/
theorem inv_reachable (h : (machine enabled).Reachable Machine.anyStep r) : r.Inv enabled := by
  refine h.invariant ?_ fun s act s' _ hs _ hstep => hs.step hstep
  rintro s rfl
  exact inv_new

/-! ## The start -/

/-- Where the body waits for a server that has lifted off, it goes on. -/
theorem stepBody_ne_none (h : r.Inv enabled) (hl : r.LiftedOff) (hidle : r.body ≠ .idle) (hdone : r.body ≠ .done) :
    r.stepBody ≠ none := by
  unfold stepBody
  cases hb : r.body with
  | idle => exact absurd hb hidle
  | asks a =>
    by_cases hp : (r.api a).start.permit = true
    · simp [hp]
    · simp [hp]
  | waits a =>
    have ht := h.tokens a
    rw [hl a, Inv.passed_self (Or.inr hb)] at ht
    have hpos : 0 < (r.api a).start.tokens := Nat.lt_of_lt_of_eq Nat.one_pos ht.symm
    obtain ⟨t, ts, hcons⟩ := List.exists_cons_of_ne_nil (Notify.released_ne_nil hpos (h.asked a hb))
    simp [Notify.wake, hcons]
  | done => exact absurd hb hdone

/-- (run) Whoever started the hot wallet is notified once, as soon as both servers have lifted off and not before; so
`run_hot_wallet` does not return by itself unless both were enabled, and lifted off. -/
theorem start_announced (enabled : ApiType → Bool) (r : Runner) (h : (machine enabled).Reachable Machine.anyStep r) :
    r.started ≤ 1 ∧ (r.started = 1 → r.LiftedOff) ∧ (r.goesOn = true → r.Settled enabled → (r.started = 1 ↔ r.LiftedOff)) ∧
      (r.phase = .finished → r.started = 1 ∧ ∀ a, enabled a = true ∧ (r.api a).server = .ended true) := by
  have hi := inv_reachable h
  have hlifted : r.started = 1 → r.LiftedOff := by
    intro hone a
    have hdone : r.body = .done := by
      have hstarted := hi.started
      rw [hone] at hstarted
      split at hstarted
      · assumption
      · cases hstarted
    have ht := hi.tokens a
    rw [hdone] at ht
    cases hl : (r.api a).server.lifted with
    | true => rfl
    | false =>
      rw [hl] at ht
      exact absurd ht (Nat.succ_ne_zero _)
  refine ⟨?_, hlifted, fun hgo hset => ⟨hlifted, fun hl => ?_⟩, fun hfin => ?_⟩
  · rw [hi.started]
    split <;> decide
  · rw [hi.started, if_pos]
    by_cases hidle : r.body = .idle
    · have hlaunch := hset .launch rfl
      simp [step, hgo, hidle] at hlaunch
    · by_cases hdone : r.body = .done
      · exact hdone
      · have hbody := hset .body rfl
        rw [step, if_pos hgo] at hbody
        exact absurd hbody (stepBody_ne_none hi hl hidle hdone)
  · obtain ⟨hdone, hover⟩ := hi.finished hfin
    have hone : r.started = 1 := by rw [hi.started, if_pos hdone]
    refine ⟨hone, fun a => ?_⟩
    have hl := hlifted hone a
    have ho := hover a
    cases hs : (r.api a).server with
    | ended lifted =>
      rw [hs] at hl
      have hen : enabled a ≠ false := by
        intro hen
        have hdis := (hi.disabled a (by rw [hdone]; exact ServeBody.noConfusion)).mpr hen
        rw [hs] at hdis
        cases hdis
      exact ⟨Bool.of_not_eq_false hen, congrArg Server.ended hl⟩
    | serving =>
      rw [hs] at ho
      cases ho
    | _ =>
      rw [hs] at hl
      cases hl

/-! ## The end -/

/-- `run_hot_wallet` has returned with an error, and nothing runs any more. -/
structure Ended (r : Runner) : Prop where
  returned : ∃ e, r.phase = .failed e
  servers : ∀ a, (r.api a).server.running = false
  workers : r.workers ≠ .running

/-- The abort is requested, and `run_hot_wallet` has not returned before that with its servers ended by themselves. -/
structure Aborting (r : Runner) : Prop where
  requested : r.abortRequested = true
  notFinished : r.phase ≠ .finished

theorem remaining_lt (hphase : remaining.phase r'.phase ≤ remaining.phase r.phase)
    (hbody : remaining.body r'.body ≤ remaining.body r.body)
    (hserver : ∀ a, remaining.server (r'.api a).server ≤ remaining.server (r.api a).server)
    (hlt : remaining.phase r'.phase < remaining.phase r.phase ∨ remaining.body r'.body < remaining.body r.body ∨
      ∃ a, remaining.server (r'.api a).server < remaining.server (r.api a).server) : r'.remaining < r.remaining := by
  have hpublic := hserver .publicApi
  have hoperator := hserver .operatorApi
  unfold remaining
  rcases hlt with hlt | hlt | ⟨a, hlt⟩
  · omega
  · omega
  · cases a <;> omega

theorem remaining_setApi {x : Api} (h : remaining.server x.server < remaining.server (r.api a).server) :
    (r.setApi a x).remaining < r.remaining := by
  refine remaining_lt (Nat.le_refl _) (Nat.le_refl _) (fun b => ?_) (Or.inr (Or.inr ⟨a, by rwa [setApi_self]⟩))
  by_cases hba : b = a
  · subst hba
    rw [setApi_self]
    exact Nat.le_of_lt h
  · exact Nat.le_of_eq (by rw [setApi_of_ne r x hba])

theorem remaining_endServer (h : (r.api a).server.running = true) : (r.endServer a).remaining < r.remaining := by
  refine remaining_setApi ?_
  cases hs : (r.api a).server <;> rw [hs] at h
  case launching => exact Nat.succ_pos 1
  case serving => exact Nat.one_pos
  all_goals cases h

/-- The servers stay as they are when the body asks, or goes on. -/
theorem server_setStart (r : Runner) (a b : ApiType) (start : Notify Unit) :
    ((r.setApi a { r.api a with start := start }).api b).server = (r.api b).server := by
  by_cases hba : b = a
  · subst hba
    rw [setApi_self]
  · rw [setApi_of_ne r _ hba]

theorem body_after {body : ServeBody} (hb : body = .asks a ∨ body = .waits a) :
    remaining.body (.after a) < remaining.body body := by
  rcases hb with rfl | rfl <;> cases a <;> decide

theorem remaining_stepBody (h : r.stepBody = some r') : r'.remaining < r.remaining := by
  have hpass : ∀ a start, r.body = .asks a ∨ r.body = .waits a → (r.pass a start).remaining < r.remaining := by
    intro a start hb
    exact remaining_lt (Nat.le_refl _) (Nat.le_of_lt (body_after hb)) (fun b => Nat.le_of_eq (congrArg _ (server_setStart r a b start)))
      (Or.inr (Or.inl (body_after hb)))
  unfold stepBody at h
  cases hb : r.body with
  | idle =>
    rw [hb] at h
    cases h
  | asks a =>
    rw [hb] at h
    by_cases hp : (r.api a).start.permit = true
    · simp only [hp, if_true] at h
      obtain rfl := Option.some.inj h
      exact hpass a _ (Or.inl hb)
    · simp only [hp] at h
      obtain rfl := Option.some.inj h
      have hlt : remaining.body (.waits a) < remaining.body r.body := by
        rw [hb]
        cases a <;> decide
      exact remaining_lt (Nat.le_refl _) (Nat.le_of_lt hlt) (fun b => Nat.le_of_eq (congrArg _ (server_setStart r a b _)))
        (Or.inr (Or.inl hlt))
  | waits a =>
    rw [hb] at h
    obtain ⟨start, -, rfl⟩ := Option.map_eq_some_iff.mp h
    exact hpass a start (Or.inr hb)
  | done =>
    rw [hb] at h
    cases h

/-- A step that only changes the phase. -/
theorem remaining_phase {p : RunPhase} (p' : RunPhase) (hp : r.phase = p) (hp' : r'.phase = p')
    (hlt : remaining.phase p' < remaining.phase p) (hbody : r'.body = r.body)
    (hserver : ∀ a, (r'.api a).server = (r.api a).server) : r'.remaining < r.remaining := by
  subst hp hp'
  exact remaining_lt (Nat.le_of_lt hlt) (Nat.le_of_eq (congrArg _ hbody)) (fun a => Nat.le_of_eq (congrArg _ (hserver a))) (Or.inl hlt)

/-- (step) Every step but a request to abort brings the end closer. -/
theorem remaining_step (hi : r.Inv enabled) {act : RunnerAction} (hact : act ≠ .abort) (hs : r.step enabled act = some r') :
    r'.remaining < r.remaining := by
  cases act with
  | connect ok =>
    obtain ⟨hp, hs⟩ := Option.ite_none_right_eq_some.mp hs
    obtain rfl := Option.some.inj hs
    cases ok with
    | true => exact remaining_phase .reconstructing hp rfl (by decide) rfl fun _ => rfl
    | false => exact remaining_phase (.failed .db) hp rfl (by decide) rfl fun _ => rfl
  | reconstruct ok =>
    obtain ⟨hp, hs⟩ := Option.ite_none_right_eq_some.mp hs
    cases ok with
    | true =>
      obtain rfl := Option.some.inj hs
      exact remaining_phase .serving hp rfl (by decide) rfl fun _ => rfl
    | false =>
      obtain rfl := Option.some.inj hs
      exact remaining_phase (.failed .query) hp rfl (by decide) rfl fun _ => rfl
  | launch =>
    obtain ⟨⟨-, hidle⟩, hs⟩ := Option.ite_none_right_eq_some.mp hs
    obtain rfl := Option.some.inj hs
    have hbody : remaining.body (.asks .publicApi) < remaining.body r.body := by
      rw [hidle]
      decide
    refine remaining_lt (Nat.le_refl _) (Nat.le_of_lt hbody) (fun a => ?_) (Or.inr (Or.inl hbody))
    rw [(hi.idle a).mpr hidle]
    simp only [launchServers]
    cases enabled a <;> decide
  | liftoff a =>
    obtain ⟨⟨hserver, -⟩, hs⟩ := Option.ite_none_right_eq_some.mp hs
    obtain rfl := Option.some.inj hs
    refine remaining_setApi ?_
    rw [hserver]
    exact Nat.lt_succ_self _
  | stop a =>
    obtain ⟨hserver, hs⟩ := Option.ite_none_right_eq_some.mp hs
    obtain rfl := Option.some.inj hs
    exact remaining_endServer hserver
  | kill a =>
    obtain ⟨⟨hserver, -⟩, hs⟩ := Option.ite_none_right_eq_some.mp hs
    obtain rfl := Option.some.inj hs
    exact remaining_endServer hserver
  | body => exact remaining_stepBody (Option.ite_none_right_eq_some.mp hs).2
  | finish =>
    obtain ⟨⟨hgo, -⟩, hs⟩ := Option.ite_none_right_eq_some.mp hs
    obtain rfl := Option.some.inj hs
    exact remaining_phase .finished (Inv.goesOn hgo).1 rfl (by decide) rfl fun _ => rfl
  | abort => exact absurd rfl hact
  | exit =>
    obtain ⟨⟨hp, -⟩, hs⟩ := Option.ite_none_right_eq_some.mp hs
    obtain rfl := Option.some.inj hs
    exact remaining_phase (.failed .aborted) hp rfl (by decide) rfl fun _ => rfl

theorem running_eq_false_of_idle {s : Server} (h : s = .idle) : s.running = false := by
  rw [h]
  rfl

/-- What has nothing left to do has ended, once the abort is requested. -/
theorem Aborting.ended (hab : r.Aborting) (hi : r.Inv enabled) (hset : r.Settled enabled) : r.Ended := by
  cases hp : r.phase with
  | connecting =>
    have hstep := hset (.connect true) rfl
    rw [step, if_pos hp] at hstep
    cases hstep
  | reconstructing =>
    have hstep := hset (.reconstruct true) rfl
    rw [step, if_pos hp] at hstep
    cases hstep
  | serving =>
    have hstep := hset .exit rfl
    rw [step, if_pos ⟨hp, hab.requested⟩] at hstep
    cases hstep
  | finished => exact absurd hp hab.notFinished
  | failed e =>
    refine ⟨⟨e, hp⟩, fun a => ?_, fun hw => ?_⟩
    · by_cases hab' : e = .aborted
      · subst hab'
        rw [← Bool.not_eq_true]
        intro hrun
        have hstep := hset (.kill a) rfl
        rw [step, if_pos ⟨hrun, (hi.aborting a).mpr hp⟩] at hstep
        cases hstep
      · refine running_eq_false_of_idle ((hi.idle a).mpr (hi.early ?_))
        rw [hp]
        cases e <;> first | rfl | exact absurd rfl hab'
    · rcases hi.workers.mp hw with hw | hw
      · rw [hp] at hw
        cases hw
      · exact absurd hw hab.notFinished

/-- The body changes neither the phase nor the request to abort. -/
theorem stepBody_keeps (h : r.stepBody = some r') : r'.abortRequested = r.abortRequested ∧ r'.phase = r.phase := by
  unfold stepBody at h
  cases hb : r.body with
  | asks a =>
    rw [hb] at h
    by_cases hp : (r.api a).start.permit = true
    · simp only [hp, if_true] at h
      obtain rfl := Option.some.inj h
      exact ⟨rfl, rfl⟩
    · simp only [hp] at h
      obtain rfl := Option.some.inj h
      exact ⟨rfl, rfl⟩
  | waits a =>
    rw [hb] at h
    obtain ⟨start, -, rfl⟩ := Option.map_eq_some_iff.mp h
    exact ⟨rfl, rfl⟩
  | _ =>
    rw [hb] at h
    cases h

/-- (step) The request stays. -/
theorem abortRequested_step {act : RunnerAction} (hs : r.step enabled act = some r') (hab : r.abortRequested = true) :
    r'.abortRequested = true := by
  cases act with
  | reconstruct ok =>
    obtain ⟨-, hs⟩ := Option.ite_none_right_eq_some.mp hs
    cases ok with
    | true =>
      obtain rfl := Option.some.inj hs
      exact hab
    | false =>
      obtain rfl := Option.some.inj hs
      exact hab
  | body => exact (stepBody_keeps (Option.ite_none_right_eq_some.mp hs).2).1.trans hab
  | abort =>
    obtain rfl := Option.some.inj hs
    rfl
  | _ =>
    obtain ⟨-, hs⟩ := Option.ite_none_right_eq_some.mp hs
    obtain rfl := Option.some.inj hs
    exact hab

/-- (step) Once the abort is requested, `run_hot_wallet` does not return without an error. -/
theorem Aborting.step {act : RunnerAction} (hab : r.Aborting) (hs : r.step enabled act = some r') : r'.Aborting := by
  refine ⟨abortRequested_step hs hab.requested, ?_⟩
  cases act with
  | connect ok =>
    obtain ⟨-, hs⟩ := Option.ite_none_right_eq_some.mp hs
    obtain rfl := Option.some.inj hs
    cases ok <;> exact RunPhase.noConfusion
  | reconstruct ok =>
    obtain ⟨-, hs⟩ := Option.ite_none_right_eq_some.mp hs
    cases ok <;> obtain rfl := Option.some.inj hs <;> exact RunPhase.noConfusion
  | body =>
    rw [(stepBody_keeps (Option.ite_none_right_eq_some.mp hs).2).2]
    exact hab.notFinished
  | finish =>
    obtain ⟨⟨hgo, -⟩, -⟩ := Option.ite_none_right_eq_some.mp hs
    have hnot := (Inv.goesOn hgo).2
    rw [hab.requested] at hnot
    cases hnot
  | exit =>
    obtain ⟨-, hs⟩ := Option.ite_none_right_eq_some.mp hs
    obtain rfl := Option.some.inj hs
    exact RunPhase.noConfusion
  | abort =>
    obtain rfl := Option.some.inj hs
    exact hab.notFinished
  | _ =>
    obtain ⟨-, hs⟩ := Option.ite_none_right_eq_some.mp hs
    obtain rfl := Option.some.inj hs
    exact hab.notFinished

/-- (run) When the abort is requested before `run_hot_wallet` has returned, then in every run that follows each step brings the end
closer, and where the code has nothing left to do, nothing runs any more. -/
theorem shutdown_completes (enabled : ApiType → Bool) (r r' : Runner) (h : (machine enabled).Reachable Machine.anyStep r)
    (hab : r.abortRequested = true) (hret : r.phase ≠ .finished)
    (h' : ((machine enabled).startedAt r).Reachable Machine.anyStep r') :
    (r'.Settled enabled → r'.Ended) ∧ ∀ act r'', act ≠ .abort → r'.step enabled act = some r'' → r''.remaining < r'.remaining := by
  have hi := inv_reachable (h.trans h')
  have hab' : r'.Aborting := by
    refine h'.invariant (I := Aborting) ?_ (fun s act s' _ hs _ hstep => hs.step hstep)
    rintro _ rfl
    exact ⟨hab, hret⟩
  exact ⟨hab'.ended hi, fun act r'' hact hs => remaining_step hi hact hs⟩

/-- The steps that the code makes as soon as it can. -/
def ownActions : List RunnerAction :=
  [.connect true, .connect false, .reconstruct true, .reconstruct false, .launch, .kill .publicApi, .kill .operatorApi, .body,
    .finish, .exit]

theorem mem_ownActions {act : RunnerAction} (h : act.own = true) : act ∈ ownActions := by
  cases act with
  | connect ok => cases ok <;> simp [ownActions]
  | reconstruct ok => cases ok <;> simp [ownActions]
  | kill a => cases a <;> simp [ownActions]
  | liftoff a => cases h
  | stop a => cases h
  | abort => cases h
  | _ => simp [ownActions]

theorem settled_of_ownActions (h : ∀ act ∈ ownActions, (r.step enabled act).isNone = true) : r.Settled enabled :=
  fun act hact => Option.isNone_iff_eq_none.mp (h act (mem_ownActions hact))

end Runner

namespace Sample

/-- Both servers lift off, the operators' first; then the hot wallet is stopped. -/
def starting : List RunnerAction :=
  [.connect true, .reconstruct true, .launch, .body, .liftoff .operatorApi, .liftoff .publicApi, .body, .body]

def stopping : List RunnerAction := starting ++ [.abort, .exit, .kill .publicApi, .kill .operatorApi]

end Sample

namespace Runner

open Sample in
theorem start_announced_both : ∃ r : Runner, r.started = 1 ∧ r.goesOn = true ∧ r.LiftedOff := by
  obtain ⟨r, hr, hq⟩ := Machine.exists_reachable (M := machine fun _ => true) (P := Machine.anyStep) starting
    (q := fun r => decide (r.started = 1 ∧ r.goesOn = true)) rfl (by decide)
  obtain ⟨hone, hgo⟩ := of_decide_eq_true hq
  exact ⟨r, hone, hgo, (start_announced (fun _ => true) r hr).2.1 hone⟩

open Sample in
/-- The hot wallet is stopped while it serves both APIs. -/
theorem shutdown_completes_both : ∃ r : Runner, r.started = 1 ∧ r.Ended := by
  obtain ⟨r, hr, hq⟩ := Machine.exists_reachable (M := machine fun _ => true) (P := Machine.anyStep) stopping
    (q := fun r => decide (r.started = 1 ∧ r.abortRequested = true ∧ r.phase ≠ .finished ∧
      ∀ act ∈ ownActions, (r.step (fun _ => true) act).isNone = true)) rfl (by decide)
  obtain ⟨hone, hab, hret, hnone⟩ := of_decide_eq_true hq
  exact ⟨r, hone, (shutdown_completes (fun _ => true) r r hr hab hret (.init rfl)).1 (settled_of_ownActions hnone)⟩

end Runner

end Hexstody
