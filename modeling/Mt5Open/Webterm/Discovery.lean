import Mathlib.Data.List.TakeDrop
import Mathlib.Data.String.Basic
import Mt5Open.Lib.Decoder
import Mt5Open.Lib.Net
import Mt5Open.Lib.Sorted

/-!
# The discovery of servers

The name of a server is looked up in what a directory answers to a search.  A login dials one
endpoint of the server; the list of its endpoints and the list of the servers of a company are for
the user.

`servers_resolved` puts the three next to each other: what a login dials is in the list of the
endpoints, and a name in the list of servers is found.
-/

namespace Mt5Open.Webterm.Discovery

open Lib Lib.Net

/-! ## The answer of the directory -/

/-- `serde_json::Value` -/
inductive Value where
  | null
  | bool (b : Bool)
  | number (text : String)
  | string (text : String)
  | array (items : List Value)
  | object (entries : List (String × Value))

namespace Value

def get (key : String) : Value → Option Value
  | object entries => entries.lookup key
  | _ => none

def asArray : Value → Option (List Value)
  | array items => some items
  | _ => none

def asStr : Value → Option String
  | string text => some text
  | _ => none

end Value

/-- `search_mq`.  The directory answers a search with a value, or with nothing that can be read. -/
def searchMq (directory : String → Option Value) (company : String) : List Value :=
  (((directory company).bind (·.get "result")).bind Value.asArray).getD []

/-- The results of the companies of the answer. -/
def results (payload : List Value) : List Value :=
  payload.flatMap fun company => ((company.get "results").bind Value.asArray).getD []

/-- `result.get("name").and_then(|x| x.as_str())` -/
def nameText (result : Value) : Option String := (result.get "name").bind Value.asStr

structure ServerHit where
  name : String
  access : List String
  deriving DecidableEq

def serverHit (result : Value) : ServerHit where
  name := (nameText result).getD ""
  access :=
    (((result.get "access").bind Value.asArray).map fun a => a.filterMap Value.asStr).getD []

/-! ## Endpoints -/

def WEB_PORT : UInt16 := 443

/-- `format!("{host}:{WEB_PORT}")` -/
def endpoint (host : String) : String := host ++ ":443"

/-- One round of the loop in `pick_web_terminal`. -/
def hostPort (item : String) : Option (String × UInt16) :=
  match rsplitOnce ':' item.toList with
  | some (host, portS) =>
    match parseU16 portS with
    | some port => if host ≠ [] then some (String.ofList host, port) else none
    | none => none
  | none => if item ≠ "" then some (item, WEB_PORT) else none

def pickWebTerminal (access : List String) : Except String String :=
  let parsed := access.filterMap hostPort
  match parsed.find? fun entry => entry.2 = WEB_PORT with
  | some (host, _) => .ok (endpoint host)
  | none =>
    match parsed.head? with
    | some (host, _) => .ok (endpoint host)
    | none => .error "no access endpoints"

/-- The host and the port that `find_web_terminal` makes of an endpoint. -/
def splitEndpoint (endpoint : String) : Except String (String × UInt16) :=
  match rsplitOnce ':' endpoint.toList with
  | some (host, portS) => .ok (String.ofList host, (parseU16 portS).getD WEB_PORT)
  | none => .error "bad endpoint"

/-- One round of the loop in `access_points`. -/
def accessPoint (item : String) : Option String :=
  match rsplitOnce ':' item.toList with
  | some (host, port) =>
    if (parseU16 port).isSome ∧ host ≠ [] then some (endpoint (String.ofList host))
    else if item ≠ "" then some (endpoint item)
    else none
  | none => if item ≠ "" then some (endpoint item) else none

/-- One round of the loop in `list_servers`. -/
def listedName (result : Value) : Option String := (nameText result).filter fun name => name ≠ ""

/-- A push of what is not there yet. -/
def pushNew (out : List String) (item : String) : List String :=
  if item ∈ out then out else out ++ [item]

section Lookup

variable (toLowercase : String → String)

def hitsNamed (payload : List Value) (serverName : String) : List ServerHit :=
  ((results payload).map serverHit).filter fun hit =>
    toLowercase hit.name = toLowercase serverName

variable (directory : String → Option Value)

/-- The access of the first hit. -/
def accessOf (serverName : String) : Except String (List String) :=
  match (hitsNamed toLowercase (searchMq directory serverName) serverName).head? with
  | some hit => .ok hit.access
  | none => .error ("server not found: " ++ serverName)

/-- `find_web_terminal` -/
def findWebTerminal (serverName : String) : Except String (String × UInt16) := do
  let access ← accessOf toLowercase directory serverName
  let endpoint ← pickWebTerminal access
  splitEndpoint endpoint

/-- `access_points` -/
def accessPoints (serverName : String) : Except String (List String) := do
  let access ← accessOf toLowercase directory serverName
  return (access.filterMap accessPoint).foldl pushNew []

/-- `list_servers` -/
def listServers (company : String) : Except String (List String) :=
  let names := sortByKey id
    (((results (searchMq directory company)).filterMap listedName).foldl pushNew [])
  if names = [] then .error ("no servers found for " ++ company) else .ok names

end Lookup

/-! ## What is looked up -/

theorem foldl_pushNew (items : List String) : items.foldl pushNew [] = items.eraseDups := by
  induction items using List.reverseRecOn with
  | nil => rfl
  | append_singleton items item ih =>
    rw [List.foldl_append, ih, eraseDups_concat]
    simp only [List.foldl_cons, List.foldl_nil, pushNew, List.mem_eraseDups]

/-- The endpoint of a host is read back. -/
theorem rsplitOnce_endpoint (host : String) :
    rsplitOnce ':' (endpoint host).toList = some (host.toList, ['4', '4', '3']) := by
  have hreverse : (endpoint host).toList.reverse =
      '3' :: '4' :: '4' :: ':' :: host.toList.reverse := by
    simp [endpoint]
  rw [rsplitOnce, hreverse, List.span_eq_takeWhile_dropWhile]
  simp

theorem splitEndpoint_endpoint (host : String) :
    splitEndpoint (endpoint host) = .ok (host, WEB_PORT) := by
  have hport : parseU16 ['4', '4', '3'] = some WEB_PORT := by decide
  simp only [splitEndpoint, rsplitOnce_endpoint, hport, String.ofList_toList, Option.getD_some]

theorem accessPoint_of_hostPort {item host : String} {port : UInt16}
    (h : hostPort item = some (host, port)) : accessPoint item = some (endpoint host) := by
  unfold hostPort at h
  unfold accessPoint
  split at h
  · rename_i front portS hsplit
    split at h
    · rename_i read hport
      split at h
      · rename_i hfront
        obtain ⟨rfl, -⟩ := Prod.mk.inj (Option.some.inj h)
        exact if_pos ⟨Option.isSome_iff_exists.mpr ⟨read, hport⟩, hfront⟩
      · cases h
    · cases h
  · split at h
    · rename_i hitem
      obtain ⟨rfl, -⟩ := Prod.mk.inj (Option.some.inj h)
      exact if_pos hitem
    · cases h

/-- The host that a login prefers: of the first entry with the port of the web terminal, and
without one of the first entry. -/
inductive Preferred (access : List String) (host : String) : Prop
  | web {front item back} (split : access = front ++ item :: back)
      (reads : hostPort item = some (host, WEB_PORT))
      (first : ∀ other ∈ front, ∀ name, hostPort other ≠ some (name, WEB_PORT))
  | other {front item back port} (split : access = front ++ item :: back)
      (reads : hostPort item = some (host, port))
      (first : ∀ other ∈ front, hostPort other = none)
      (noWeb : ∀ other ∈ access, ∀ name, hostPort other ≠ some (name, WEB_PORT))

/-- Where no entry has a host, nothing is picked; otherwise the preferred host. -/
theorem pickWebTerminal_cases (access : List String) :
    (∃ host, Preferred access host ∧ pickWebTerminal access = .ok (endpoint host)) ∨
      ((∀ item ∈ access, hostPort item = none) ∧
        pickWebTerminal access = .error "no access endpoints") := by
  cases hweb : (access.filterMap hostPort).find? fun entry => entry.2 = WEB_PORT with
  | some entry =>
    obtain ⟨host, port⟩ := entry
    refine .inl ⟨host, ?_, by simp only [pickWebTerminal, hweb]⟩
    rw [List.find?_filterMap, Option.bind_eq_some_iff] at hweb
    obtain ⟨item, hfound, hreads⟩ := hweb
    obtain ⟨hport, front, back, hsplit, hfirst⟩ := List.find?_eq_some_iff_append.mp hfound
    rw [hreads, Option.any_some, decide_eq_true_eq] at hport
    subst hport
    refine .web hsplit hreads fun other hother name hname => ?_
    have hnot := hfirst other hother
    rw [hname] at hnot
    simp at hnot
  | none =>
    have hnoWeb : ∀ other ∈ access, ∀ name, hostPort other ≠ some (name, WEB_PORT) := by
      intro other hother name hname
      have hnot := List.find?_eq_none.mp hweb _ (List.mem_filterMap.mpr ⟨other, hother, hname⟩)
      simp at hnot
    cases hhead : (access.filterMap hostPort).head? with
    | some entry =>
      obtain ⟨host, port⟩ := entry
      refine .inl ⟨host, ?_, by simp only [pickWebTerminal, hweb, hhead]⟩
      rw [List.head?_filterMap] at hhead
      obtain ⟨front, item, back, hsplit, hreads, hfirst⟩ := List.findSome?_eq_some_iff.mp hhead
      exact .other hsplit hreads hfirst hnoWeb
    | none =>
      refine .inr ⟨?_, by simp only [pickWebTerminal, hweb, hhead]⟩
      rw [List.head?_filterMap] at hhead
      exact List.findSome?_eq_none_iff.mp hhead

/-- The preferred host is one of the entries. -/
theorem Preferred.reads {access : List String} {host : String} (h : Preferred access host) :
    ∃ item ∈ access, ∃ port, hostPort item = some (host, port) := by
  cases h with
  | web hsplit hreads _ =>
    exact ⟨_, hsplit ▸ List.mem_append_right _ List.mem_cons_self, _, hreads⟩
  | other hsplit hreads _ _ =>
    exact ⟨_, hsplit ▸ List.mem_append_right _ List.mem_cons_self, _, hreads⟩

/-- An entry with a text has an endpoint, of its host or of the text. -/
theorem exists_accessPoint {item : String} (hitem : item ≠ "") :
    ∃ host, accessPoint item = some (endpoint host) ∧
      (host = item ∨ ∃ port, hostPort item = some (host, port)) := by
  cases hreads : hostPort item with
  | some entry => exact ⟨entry.1, accessPoint_of_hostPort hreads, .inr ⟨entry.2, rfl⟩⟩
  | none =>
    refine ⟨item, ?_, .inl rfl⟩
    unfold hostPort at hreads
    unfold accessPoint
    split at hreads
    · rename_i front portS hsplit
      rw [if_neg, if_pos hitem]
      rintro ⟨hport, hfront⟩
      obtain ⟨port, hport⟩ := Option.isSome_iff_exists.mp hport
      simp [hport, hfront] at hreads
    · exact if_pos hitem

/-- The endpoints of a server: each once, in the order of the entries, and one for every entry. -/
structure Endpoints (access endpoints : List String) : Prop where
  nodup : endpoints.Nodup
  order : endpoints.Sublist (access.filterMap accessPoint)
  covers : ∀ item ∈ access, item ≠ "" → ∃ host, endpoint host ∈ endpoints ∧
    (host = item ∨ ∃ port, hostPort item = some (host, port))

theorem endpoints_foldl (access : List String) :
    Endpoints access ((access.filterMap accessPoint).foldl pushNew []) where
  nodup := by
    rw [foldl_pushNew]
    exact eraseDups_nodup _
  order := by
    rw [foldl_pushNew]
    exact eraseDups_sublist _
  covers := by
    intro item hmem hitem
    obtain ⟨host, hpoint, hhost⟩ := exists_accessPoint hitem
    refine ⟨host, ?_, hhost⟩
    rw [foldl_pushNew, List.mem_eraseDups]
    exact List.mem_filterMap.mpr ⟨item, hmem, hpoint⟩

/-- The first result of that name. -/
structure FirstHit (toLowercase : String → String) (payload : List Value) (serverName : String)
    (hit : ServerHit) : Prop where
  name_eq : toLowercase hit.name = toLowercase serverName
  first : ∃ front back, (results payload).map serverHit = front ++ hit :: back ∧
    ∀ other ∈ front, toLowercase other.name ≠ toLowercase serverName

theorem head?_hitsNamed {toLowercase : String → String} {payload : List Value}
    {serverName : String} {hit : ServerHit} :
    (hitsNamed toLowercase payload serverName).head? = some hit ↔
      FirstHit toLowercase payload serverName hit := by
  rw [hitsNamed, List.head?_filter, List.find?_eq_some_iff_append]
  simp only [decide_eq_true_eq, Bool.not_eq_true', decide_eq_false_iff_not]
  constructor
  · intro h
    obtain ⟨hname, front, back, hsplit, hfirst⟩ := h
    exact ⟨hname, front, back, hsplit, hfirst⟩
  · intro h
    obtain ⟨front, back, hsplit, hfirst⟩ := h.first
    exact ⟨h.name_eq, front, back, hsplit, hfirst⟩

/-- What a login and the list of the endpoints make of the same answer: the name is unknown to
both, or it has entries and none of them can be dialed, or the login dials an endpoint of the
list. -/
inductive Resolved (toLowercase : String → String) (payload : List Value) (serverName : String) :
    Except String (String × UInt16) → Except String (List String) → Prop
  | unlisted (other : ∀ hit ∈ (results payload).map serverHit,
        toLowercase hit.name ≠ toLowercase serverName) :
      Resolved toLowercase payload serverName (.error ("server not found: " ++ serverName))
        (.error ("server not found: " ++ serverName))
  | unreachable {hit endpoints} (first : FirstHit toLowercase payload serverName hit)
      (unread : ∀ item ∈ hit.access, hostPort item = none)
      (listed : Endpoints hit.access endpoints) :
      Resolved toLowercase payload serverName (.error "no access endpoints") (.ok endpoints)
  | reached {hit host endpoints} (first : FirstHit toLowercase payload serverName hit)
      (preferred : Preferred hit.access host) (dialed : endpoint host ∈ endpoints)
      (listed : Endpoints hit.access endpoints) :
      Resolved toLowercase payload serverName (.ok (host, WEB_PORT)) (.ok endpoints)

theorem resolved (toLowercase : String → String) (directory : String → Option Value)
    (serverName : String) :
    Resolved toLowercase (searchMq directory serverName) serverName
      (findWebTerminal toLowercase directory serverName)
      (accessPoints toLowercase directory serverName) := by
  cases hhit : (hitsNamed toLowercase (searchMq directory serverName) serverName).head? with
  | none =>
    have haccess : accessOf toLowercase directory serverName =
        .error ("server not found: " ++ serverName) := by
      rw [accessOf, hhit]
    rw [findWebTerminal, accessPoints, haccess]
    refine .unlisted fun hit hmem hname => ?_
    have hnone := List.head?_eq_none_iff.mp hhit
    have hmem : hit ∈ hitsNamed toLowercase (searchMq directory serverName) serverName :=
      List.mem_filter.mpr ⟨hmem, decide_eq_true hname⟩
    rw [hnone] at hmem
    cases hmem
  | some hit =>
    have haccess : accessOf toLowercase directory serverName = .ok hit.access := by
      rw [accessOf, hhit]
    have hfirst := head?_hitsNamed.mp hhit
    have hlisted := endpoints_foldl hit.access
    rw [findWebTerminal, accessPoints, haccess, except_ok_bind, except_ok_bind]
    rcases pickWebTerminal_cases hit.access with ⟨host, hpreferred, hpick⟩ | ⟨hunread, hpick⟩
    · obtain ⟨item, hitem, port, hreads⟩ := hpreferred.reads
      rw [hpick, except_ok_bind, splitEndpoint_endpoint]
      refine .reached hfirst hpreferred ?_ hlisted
      rw [foldl_pushNew, List.mem_eraseDups]
      exact List.mem_filterMap.mpr ⟨item, hitem, accessPoint_of_hostPort hreads⟩
    · rw [hpick]
      exact .unreachable hfirst hunread hlisted

/-! ## What is offered -/

theorem listedName_eq_some {result : Value} {name : String} :
    listedName result = some name ↔ name ≠ "" ∧ (serverHit result).name = name := by
  rw [listedName, Option.filter_eq_some_iff, decide_eq_true_eq, serverHit]
  cases nameText result with
  | some text =>
    rw [Option.some.injEq, Option.getD_some]
    exact and_comm
  | none =>
    refine iff_of_false (fun h => by cases h.1) ?_
    rintro ⟨hname, rfl⟩
    exact hname rfl

/-- The names that a list gives to choose from: every name of the answer, in order. -/
inductive Offered (payload : List Value) (company : String) : Except String (List String) → Prop
  | names {names} (nonempty : names ≠ []) (ordered : names.Pairwise (· < ·))
      (listed : ∀ name, name ∈ names ↔
        name ≠ "" ∧ ∃ hit ∈ (results payload).map serverHit, hit.name = name) :
      Offered payload company (.ok names)
  | nothing (unnamed : ∀ hit ∈ (results payload).map serverHit, hit.name = "") :
      Offered payload company (.error ("no servers found for " ++ company))

theorem offered (directory : String → Option Value) (company : String) :
    Offered (searchMq directory company) company (listServers directory company) := by
  unfold listServers
  rw [foldl_pushNew]
  generalize hnames : sortByKey id
    ((results (searchMq directory company)).filterMap listedName).eraseDups = names
  have hperm := hnames ▸ sortByKey_perm id
    ((results (searchMq directory company)).filterMap listedName).eraseDups
  have hlisted : ∀ name, name ∈ names ↔
      name ≠ "" ∧
        ∃ hit ∈ (results (searchMq directory company)).map serverHit, hit.name = name := by
    intro name
    rw [hperm.mem_iff, List.mem_eraseDups, List.mem_filterMap]
    simp only [listedName_eq_some, List.mem_map]
    constructor
    · intro h
      obtain ⟨result, hresult, hname, heq⟩ := h
      exact ⟨hname, serverHit result, ⟨result, hresult, rfl⟩, heq⟩
    · intro h
      obtain ⟨hname, _, ⟨result, hresult, rfl⟩, heq⟩ := h
      exact ⟨result, hresult, hname, heq⟩
  by_cases hempty : names = []
  · show Offered _ _ (if names = [] then _ else _)
    rw [if_pos hempty]
    refine .nothing fun hit hhit => ?_
    by_contra hname
    have hmem := (hlisted hit.name).mpr ⟨hname, hit, hhit, rfl⟩
    rw [hempty] at hmem
    cases hmem
  · show Offered _ _ (if names = [] then _ else _)
    rw [if_neg hempty]
    have hordered : names.Pairwise (· ≤ ·) := hnames ▸ sortByKey_ordered id _
    have hnodup : names.Nodup := hperm.nodup_iff.mpr (eraseDups_nodup _)
    exact .names hempty (hordered.imp₂ (fun a b hle hne => lt_of_le_of_ne hle hne) hnodup) hlisted

/-- A login dials one of the endpoints that are listed for the server.  A name in the list of a
company is found as soon as a search for the name gives what the search for the company gave. -/
theorem servers_resolved (toLowercase : String → String) (directory : String → Option Value) :
    (∀ serverName, Resolved toLowercase (searchMq directory serverName) serverName
      (findWebTerminal toLowercase directory serverName)
      (accessPoints toLowercase directory serverName)) ∧
    (∀ company, Offered (searchMq directory company) company (listServers directory company)) ∧
    ∀ company names, listServers directory company = .ok names → ∀ name ∈ names,
      results (searchMq directory company) ⊆ results (searchMq directory name) →
      ∃ endpoints, accessPoints toLowercase directory name = .ok endpoints := by
  refine ⟨resolved toLowercase directory, offered directory, ?_⟩
  intro company names hnames name hname hsearch
  have hoffered := offered directory company
  have hresolved := resolved toLowercase directory name
  rw [hnames] at hoffered
  cases hoffered with
  | names _ _ hlisted =>
    obtain ⟨-, hit, hhit, rfl⟩ := (hlisted name).mp hname
    generalize findWebTerminal toLowercase directory hit.name = dialed at hresolved
    generalize accessPoints toLowercase directory hit.name = endpoints at hresolved ⊢
    cases hresolved with
    | unlisted hother => exact absurd rfl (hother hit (List.map_subset serverHit hsearch hhit))
    | unreachable _ _ _ => exact ⟨_, rfl⟩
    | reached _ _ _ _ => exact ⟨_, rfl⟩

/-- Lower case of the letters of ASCII. -/
def sampleLowercase (s : String) : String := String.ofList (s.toList.map Char.toLower)

/-- A directory that answers every search with one company. -/
def sampleDirectory (_ : String) : Option Value :=
  some (.object [("result", .array [.object [("results", .array
    [.object [("name", .string "Example-Demo"), ("access", .array
      [.string "acc.example:701", .string "edge.example:443", .string "acc.example:702"])],
    .object [("name", .string "Example-Contest")]])]])])

theorem servers_resolved_sampleDirectory :
    Resolved sampleLowercase (searchMq sampleDirectory "example-demo") "example-demo"
        (.ok ("edge.example", WEB_PORT)) (.ok ["acc.example:443", "edge.example:443"]) ∧
      listServers sampleDirectory "Example" = .ok ["Example-Contest", "Example-Demo"] := by
  have hdialed : findWebTerminal sampleLowercase sampleDirectory "example-demo" =
      .ok ("edge.example", WEB_PORT) := by decide +kernel
  have hlisted : accessPoints sampleLowercase sampleDirectory "example-demo" =
      .ok ["acc.example:443", "edge.example:443"] := by decide +kernel
  obtain ⟨hresolved, -, -⟩ := servers_resolved sampleLowercase sampleDirectory
  refine ⟨?_, by decide +kernel⟩
  rw [← hdialed, ← hlisted]
  exact hresolved "example-demo"

end Mt5Open.Webterm.Discovery
