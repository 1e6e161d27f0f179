import Hexstody.SignupDesk

/-!
# The logins that user names reach

Whether a request of the client reaches the account it is made for. The client puts the name of the user and the other parameters into
the URL as they are. So a request reaches the handler that it is for, with the parameters that it is made with, exactly if they can be
read off the URL again: none is empty or consists of one or two dots, none has a byte or an escape with a meaning in a URL, and the last
does not end in a blank (`reaches_iff_readable`). Two names of which one has such a byte may share a login.
-/

namespace Hexstody

theorem utf8_append (s t : String) : utf8 (s ++ t) = utf8 s ++ utf8 t := by
  simp [utf8, String.toByteArray_append]

theorem utf8_injective {s t : String} (h : utf8 s = utf8 t) : s = t :=
  String.toByteArray_inj.mp (ByteArray.ext (Array.toList_inj.mp h))

theorem utf8_eq_nil_iff {s : String} : utf8 s = [] ↔ s = "" := by
  constructor
  · exact fun h => utf8_injective (h.trans (by decide))
  · rintro rfl
    decide

/-! ## Matching a route -/

namespace RouteSegment

/-- The fixed texts of a URI. -/
def statics (uri : List RouteSegment) : List String :=
  uri.filterMap fun segment =>
    match segment with
    | .static text => some text
    | .dynamic _ => none

/-- The segments that match are the fixed texts and the parameters. -/
theorem matchAll_spec {uri : List RouteSegment} {segments params : List (List UInt8)} (h : matchAll uri segments = some params) :
    segments.flatten.length = ((statics uri).map utf8).flatten.length + params.flatten.length ∧ params ⊆ segments := by
  induction uri generalizing segments params with
  | nil =>
    cases segments with
    | nil =>
      obtain rfl := Option.some.inj h
      exact ⟨rfl, List.Subset.refl _⟩
    | cons segment segments => cases h
  | cons s uri ih =>
    cases segments with
    | nil => cases s <;> cases h
    | cons segment segments =>
      cases s with
      | static text =>
        rw [matchAll] at h
        split at h
        · rename_i htext
          obtain ⟨hlength, hsub⟩ := ih h
          refine ⟨?_, fun p hp => List.mem_cons_of_mem _ (hsub hp)⟩
          simp only [statics, List.filterMap_cons, List.map_cons, List.flatten_cons, List.length_append, htext] at hlength ⊢
          omega
        · cases h
      | dynamic name =>
        rw [matchAll] at h
        obtain ⟨ps, hps, rfl⟩ := Option.map_eq_some_iff.mp h
        obtain ⟨hlength, hsub⟩ := ih hps
        refine ⟨?_, List.cons_subset_cons _ hsub⟩
        simp only [statics, List.filterMap_cons, List.flatten_cons, List.length_append] at hlength ⊢
        omega

end RouteSegment

theorem EthModule.select_eq_some {req : EthRequest} {sel : EthSelection} (h : select req = some sel) :
    ∃ route ∈ routes, route.handler = sel.handler ∧
      RouteSegment.matchAll route.uri (Url.segments (utf8 req.endpoint)) = some sel.params := by
  obtain ⟨route, hmem, hroute⟩ := List.exists_of_findSome?_eq_some h
  split at hroute
  · obtain ⟨params, hparams, rfl⟩ := Option.map_eq_some_iff.mp hroute
    exact ⟨route, hmem, rfl, hparams⟩
  · cases hroute

/-! ## The requests of the client -/

namespace EthCall

/-- The handler that a request is for. -/
def handler : EthCall → EthHandler
  | .createuser _ => .userCreate
  | .allocateAddress _ => .checkAddress
  | .postTokens _ _ => .tokensPost
  | .getUserData _ => .userGet
  | .sendTx _ _ _ => .signsend
  | .sendTxErc20 _ _ _ _ => .signsendErc20

/-- What it is made with. -/
def params (c : EthCall) : List String := c.user :: c.others

/-- The fixed pieces of its path. -/
def pieces : EthCall → List String
  | .createuser _ => ["createuser"]
  | .allocateAddress _ => ["check_address"]
  | .postTokens _ _ => ["tokens"]
  | .getUserData _ => ["userdata"]
  | .sendTx _ _ _ => ["signingsend", "eth", "login", ""]
  | .sendTxErc20 _ _ _ _ => ["signingsend", "erc20", "login", ""]

/-- The module gives it to the handler that it is for, with what it is made with. -/
def Reaches (c : EthCall) : Prop :=
  EthModule.select c.request = some { handler := c.handler, params := c.params.map utf8, body := c.request.body }

/-- The login that the module takes it for. -/
def login? (c : EthCall) : Option (List UInt8) := (EthModule.select c.request).bind (·.params.head?)

/-- What it is made with can be read off a URL again. -/
structure Readable (c : EthCall) : Prop where
  params : ∀ a ∈ c.params, a ≠ "" ∧ Url.Plain (utf8 a)
  last : ∀ a ∈ c.params.getLast?, Url.NoBlankEnd (utf8 a)

/-- A piece is added to a path. -/
theorem utf8_slash (ps : List String) {path : String} (h : utf8 path = Url.joined (ps.map utf8)) (a : String) :
    utf8 (path ++ "/" ++ a) = Url.joined ((ps ++ [a]).map utf8) := by
  have hslash : utf8 "/" = [47] := by decide
  rw [utf8_append, utf8_append, h, hslash, List.map_append, Url.joined, Url.joined, List.flatMap_append, List.append_assoc,
    List.map_singleton, List.flatMap_singleton]
  rfl

theorem utf8_endpoint (c : EthCall) : utf8 c.request.endpoint = Url.joined ((c.pieces ++ c.params).map utf8) := by
  cases c with
  | createuser user => exact utf8_slash ["createuser"] (by decide) user
  | allocateAddress user => exact utf8_slash ["check_address"] (by decide) user
  | postTokens user tokens => exact utf8_slash ["tokens"] (by decide) user
  | getUserData user => exact utf8_slash ["userdata"] (by decide) user
  | sendTx user addr amount =>
    have hpath : utf8 "/signingsend/eth/login/" = Url.joined (["signingsend", "eth", "login", ""].map utf8) := by decide
    exact utf8_slash _ (utf8_slash _ (utf8_slash _ hpath user) addr) amount
  | sendTxErc20 user addr tokenAddr amount =>
    have hpath : utf8 "/signingsend/erc20/login/" = Url.joined (["signingsend", "erc20", "login", ""].map utf8) := by decide
    exact utf8_slash _ (utf8_slash _ (utf8_slash _ (utf8_slash _ hpath user) addr) tokenAddr) amount

/-- The route of a handler has the fixed pieces of the requests that are for it. -/
theorem statics_of_handler (c : EthCall) :
    ∀ route ∈ EthModule.routes, route.handler = c.handler →
      ((RouteSegment.statics route.uri).map utf8).flatten.length = (c.pieces.map utf8).flatten.length := by
  cases c <;> dsimp only [handler, pieces] <;> decide

theorem plain_of_mem_pieces (c : EthCall) : ∀ p ∈ c.pieces.map utf8, Url.Plain p := by
  cases c <;> dsimp only [pieces] <;> decide

/-- The path ends as the last parameter does. -/
theorem noBlankEnd_iff (c : EthCall) (hne : ∀ a ∈ c.params, a ≠ "") :
    Url.NoBlankEnd (Url.joined ((c.pieces ++ c.params).map utf8)) ↔ ∀ a ∈ c.params.getLast?, Url.NoBlankEnd (utf8 a) := by
  obtain ⟨a, ha⟩ : ∃ a, c.params.getLast? = some a := ⟨_, List.getLast?_eq_some_getLast (List.cons_ne_nil _ _)⟩
  have hlast : ((c.pieces ++ c.params).map utf8).getLast? = some (utf8 a) := by
    rw [List.getLast?_map, List.getLast?_append, ha]
    rfl
  have hnil : utf8 a ≠ [] := fun h => hne a (List.mem_of_getLast? ha) (utf8_eq_nil_iff.mp h)
  rw [Url.NoBlankEnd, Url.getLast?_joined hlast hnil, ha]
  simp [Url.NoBlankEnd]

/-- A request with readable parameters has them for the last segments of its path. -/
theorem Readable.segments {c : EthCall} (hc : c.Readable) :
    Url.segments (utf8 c.request.endpoint) = (c.pieces.map utf8).filter (!·.isEmpty) ++ c.params.map utf8 := by
  have hplain : ∀ p ∈ (c.pieces ++ c.params).map utf8, Url.Plain p := by
    intro p hp
    rw [List.map_append, List.mem_append] at hp
    rcases hp with hp | hp
    · exact c.plain_of_mem_pieces p hp
    · obtain ⟨a, ha, rfl⟩ := List.mem_map.mp hp
      exact (hc.params a ha).2
  have hend := (c.noBlankEnd_iff fun a ha => (hc.params a ha).1).mpr hc.last
  rw [utf8_endpoint, Url.segments_joined hplain hend, List.map_append, List.filter_append]
  congr 1
  refine List.filter_eq_self.mpr fun p hp => ?_
  obtain ⟨a, ha, rfl⟩ := List.mem_map.mp hp
  have hnil : utf8 a ≠ [] := fun h => (hc.params a ha).1 (utf8_eq_nil_iff.mp h)
  simpa using hnil

theorem Readable.reaches {c : EthCall} (hc : c.Readable) : c.Reaches := by
  unfold Reaches EthModule.select
  rw [hc.segments]
  cases c <;> rfl

/-- What reaches its handler with all that it is made with has lost nothing on the way. -/
theorem Reaches.readable {c : EthCall} (hc : c.Reaches) : c.Readable := by
  obtain ⟨route, hmem, hhandler, hmatch⟩ := EthModule.select_eq_some hc
  obtain ⟨hlength, hsub⟩ := RouteSegment.matchAll_spec hmatch
  have hne : ∀ a ∈ c.params, a ≠ "" := fun a ha h =>
    Url.ne_nil_of_mem_segments (hsub (List.mem_map_of_mem ha)) (utf8_eq_nil_iff.mpr h)
  rw [statics_of_handler c route hmem hhandler, utf8_endpoint, ← List.length_append, ← List.flatten_append, ← List.map_append]
    at hlength
  obtain ⟨hplain, hend⟩ := Url.plain_of_segments hlength
  refine ⟨fun a ha => ⟨hne a ha, hplain _ (List.mem_map_of_mem (List.mem_append_right _ ha))⟩, ?_⟩
  exact (c.noBlankEnd_iff hne).mp hend

theorem Reaches.login?_eq {c : EthCall} (hc : c.Reaches) : c.login? = some (utf8 c.user) := by
  rw [login?, hc]
  rfl

/-- A request reaches the account that it is made for, with all that it is made with, exactly if it is readable; and readable requests
for different users are for different logins. -/
theorem reaches_iff_readable (c : EthCall) :
    (c.Reaches ↔ c.Readable) ∧
      ∀ c' : EthCall, c.Readable → c'.Readable → c.login? = c'.login? → c.user = c'.user := by
  refine ⟨⟨Reaches.readable, Readable.reaches⟩, fun c' hc hc' hlogin => ?_⟩
  rw [hc.reaches.login?_eq, hc'.reaches.login?_eq] at hlogin
  exact utf8_injective (Option.some.inj hlogin)

/-- Names that `signup_email` accepts do not reach accounts of their own: `bob?x` is signed up as `bob`, `../removeuser/bob` removes
`bob`, and a withdrawal of `bob/carol/5?` is paid by `bob` to `carol`. -/
theorem names_of_others :
    (createuser "bob?x").login? = (createuser "bob").login? ∧
    (EthModule.select (createuser "../removeuser/bob").request).map (fun sel => (sel.handler, sel.params)) =
      some (.userRemove, [utf8 "bob"]) ∧
    (EthModule.select (sendTx "bob/carol/5?" "dave" "1").request).map (fun sel => (sel.handler, sel.params)) =
      some (.signsend, [utf8 "bob", utf8 "carol", utf8 "5"]) ∧
    ¬∀ (data : SignupEmail) (c : EthCall), data.checkLengths = .ok () → c.user = data.user → c.Reaches := by
  refine ⟨by decide, by decide, by decide, fun hall => ?_⟩
  have hreaches := hall { user := "bob?x", invite := ⟨Sample.uuid 1⟩, password := "secret" } (createuser "bob?x") (by decide) rfl
  have hlogin := hreaches.login?_eq
  have hother : (createuser "bob?x").login? = some (utf8 "bob") := by decide
  have hname := utf8_injective (Option.some.inj (hlogin.symm.trans hother))
  exact absurd hname (by decide)

end EthCall

end Hexstody
