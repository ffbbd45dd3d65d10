import DocTables.Proofs.Effect
import DocTables.Proofs.Http.Url
import DocTables.Http.Remote

/-!
Where the requests of a client go: to the address of a resource, with its id as one segment, as long
as the id is one that an address keeps in one piece.
-/
namespace DocTables.Http
open Url

namespace Resource

/-- What the path of a resource holds between its slashes. -/
def parts : Resource → List String
  | databases => ["databases"]
  | database id => ["databases", id]
  | dataSource id => ["data_sources", id]
  | dataSourceQuery id => ["data_sources", id, "query"]
  | pages => ["pages"]
  | page id => ["pages", id]

theorem joinPath_parts (r : Resource) :
    joinPath (r.parts.map String.toList) = '/' :: r.path.toList := by
  cases r <;> simp [parts, path]

theorem parts_ne_nil (r : Resource) : r.parts ≠ [] := by
  cases r <;> simp [parts]

theorem parts_injective {r r' : Resource} (h : r.parts = r'.parts) : r = r' := by
  cases r <;> cases r' <;> simp_all [parts]

/-- A resource whose path an address takes part by part. -/
structure IsPlain (r : Resource) : Prop where
  parts : ∀ part ∈ r.parts, Url.IsPlain part.toList
  trimmed : ∀ c ∈ r.path.toList.getLast?, isControlOrSpace c = false

end Resource

namespace Exchange

def targets (x : Exchange) : List Url.Target := x.requests.map Request.target

end Exchange

namespace Client

/-- What the address of a client has behind its host is a path that needs no codes, and its headers
can be written. -/
structure IsReady (c : Client) : Prop where
  base : ∃ ss, c.basePath.toList = joinPath ss ∧ ∀ s ∈ ss, IsFixed s
  token : isHeaderText c.token = true
  version : isHeaderText c.version = true

/-- Where a resource is to be found: its parts are one segment each. -/
def address (c : Client) (r : Resource) : Url.Target where
  path := c.basePath ++ "/v1" ++
    String.ofList (joinPath (r.parts.map fun part => encode isSegmentChar part.toList))
  query := none

/-- The data source that the answer for a database names. -/
def answered? (c : Client) (database : String) (x : Exchange) : Option String :=
  match (c.ask .get (.database database) none Database.read x).1.bind Database.ref with
  | .ok ref => some ref.source
  | .error _ => none

/-- The resources that a call asks for. -/
def asked (c : Client) (x : Exchange) : Call → List Resource
  | .readSchema collection =>
    .database collection :: (c.answered? collection x).toList.map .dataSource
  | .addCollection .. => [.databases]
  | .extendSchema source _ => [.dataSource source]
  | .addRecord .. => [.pages]
  | .readRecord record => [.page record]
  | .changeRecord record _ => [.page record]
  | .query source _ => [.dataSourceQuery source]

variable {c : Client}

theorem isFixed_version : IsFixed "v1".toList where
  uncut := by simp [IsUncut]
  unended := by simp [isPathEnd]
  kept := by simp [isTabOrNewline]
  undotted := by decide
  allowed := by simp [isPathChar, isGraphic, pathReserved]

/-- The segments of an address before the parts of its resource. -/
theorem IsReady.exists_fixed (hc : c.IsReady) : ∃ fixed, (∀ s ∈ fixed, IsFixed s) ∧
    joinPath fixed = (c.basePath ++ "/v1").toList := by
  obtain ⟨base, hbase, hfixed⟩ := hc.base
  refine ⟨base ++ ["v1".toList], fun s hs => ?_, ?_⟩
  · rcases List.mem_append.mp hs with hs | hs
    · exact hfixed s hs
    · exact List.mem_singleton.mp hs ▸ isFixed_version
  · rw [joinPath_append, ← hbase, String.toList_append]
    rfl

theorem toList_path {fixed : List (List Char)}
    (h : joinPath fixed = (c.basePath ++ "/v1").toList) (r : Resource) :
    (c.address r).path.toList =
      joinPath (fixed ++ (r.parts.map String.toList).map (encode isSegmentChar)) := by
  rw [address, String.toList_append, String.toList_ofList, joinPath_append, h, List.map_map]
  rfl

theorem target?_eq {fixed : List (List Char)}
    (h : joinPath fixed = (c.basePath ++ "/v1").toList) (r : Resource) :
    c.target? r = Url.target? (String.ofList (joinPath (fixed ++ r.parts.map String.toList))) := by
  have htext : c.basePath ++ "/v1/" ++ r.path =
      String.ofList (joinPath (fixed ++ r.parts.map String.toList)) := by
    apply String.toList_inj.mp
    rw [String.toList_ofList, joinPath_append, h, r.joinPath_parts]
    simp
  rw [target?, htext]

/-- A resource is asked for at its address just when it is plain. -/
theorem IsReady.target?_eq_iff (hc : c.IsReady) (r : Resource) :
    c.target? r = some (c.address r) ↔ r.IsPlain := by
  obtain ⟨fixed, hfixed, hbase⟩ := hc.exists_fixed
  have haddress : c.address r = ⟨String.ofList (joinPath (fixed ++
      (r.parts.map String.toList).map (encode isSegmentChar))), none⟩ := by
    rw [← toList_path hbase, String.ofList_toList]
    rfl
  have hlast : ('/' :: r.path.toList).getLast? = some (r.path.toList.getLast?.getD '/') := by
    rw [List.getLast?_cons]
  rw [target?_eq hbase, haddress, Url.target?_eq_iff (by simp [r.parts_ne_nil]) hfixed,
    r.joinPath_parts, hlast]
  constructor
  · rintro ⟨hparts, hend⟩
    refine ⟨fun part hpart => hparts _ (List.mem_map_of_mem hpart), fun d hd => hend d ?_⟩
    rw [Option.mem_def.mp hd]
    rfl
  · rintro ⟨hparts, hend⟩
    refine ⟨by simpa using hparts, fun d hd => ?_⟩
    obtain rfl := Option.some.inj hd
    cases hpath : r.path.toList.getLast? with
    | none => rfl
    | some d => exact hend d hpath

/-- The path of an address tells its resource. -/
theorem IsReady.address_injective (hc : c.IsReady) {r r' : Resource}
    (h : (c.address r).path = (c.address r').path) : r = r' := by
  obtain ⟨fixed, -, hbase⟩ := hc.exists_fixed
  have hpath := congrArg String.toList h
  rw [toList_path hbase, toList_path hbase] at hpath
  exact Resource.parts_injective
    (List.map_injective_iff.mpr (fun _ _ => String.toList_inj.mp) (joinPath_encode_injective hpath))

theorem IsReady.target?_isSome (hc : c.IsReady) (r : Resource) :
    ∃ target, c.target? r = some target := by
  obtain ⟨fixed, -, hbase⟩ := hc.exists_fixed
  obtain ⟨s, ss, hss⟩ := List.exists_cons_of_ne_nil
    (List.append_ne_nil_of_right_ne_nil fixed (by simpa using r.parts_ne_nil) :
      fixed ++ r.parts.map String.toList ≠ [])
  rw [target?_eq hbase, hss, joinPath_cons, target?_slash]
  exact ⟨_, rfl⟩

/-! What the calls ask for. -/

theorem targets_ask {α : Type} (hc : c.IsReady) (verb : Verb) (r : Resource) (body : Option Json)
    (read : Json.Outline → Option α) (x : Exchange) :
    (c.ask verb r body read x).2.targets.map some = x.targets.map some ++ [c.target? r] := by
  obtain ⟨target, htarget⟩ := hc.target?_isSome r
  have hrequest : c.request? verb r body =
      some ⟨verb, target, "Bearer " ++ c.token, c.version, body⟩ := by
    simp [request?, htarget, hc.token, hc.version]
  rw [htarget]
  unfold ask
  rw [hrequest]
  cases x.responses <;> simp [Exchange.targets]

theorem targets_map {α β : Type} (f : α → β) (act : StoreM Exchange α) (x : Exchange) :
    ((f <$> act) x).2.targets = (act x).2.targets := by
  rw [Effect.state_map]

/-- What an answer stands for is worked out without a request. -/
theorem run_bind_given {α β : Type} (act : StoreM Exchange α) (f : α → Except StoreError β)
    (x : Exchange) : (act >>= fun a => given (f a)) x = ((act x).1.bind f, (act x).2) := by
  rw [Effect.run_bind]
  rcases act x with ⟨_ | _, _⟩ <;> rfl

theorem targets_readSchema (hc : c.IsReady) (collection : String) (x : Exchange) :
    (c.readSchema collection x).2.targets.map some =
      x.targets.map some ++ (c.asked x (.readSchema collection)).map c.target? := by
  have hfirst := targets_ask hc .get (.database collection) none Database.read x
  have hrun : c.readSchema collection =
      (c.ask .get (.database collection) none Database.read >>= fun d => given d.ref) >>= fun ref =>
        (fun properties => ⟨ref.collection, ref.source, properties⟩) <$>
          c.ask .get (.dataSource ref.source) none readProperties := by
    simp [readSchema]
  rw [hrun, Effect.run_bind, run_bind_given]
  cases href : (c.ask .get (.database collection) none Database.read x).1.bind Database.ref with
  | error e => simp [hfirst, asked, answered?, href]
  | ok ref =>
    have hsecond := targets_ask hc .get (.dataSource ref.source) none readProperties
      (c.ask .get (.database collection) none Database.read x).2
    simp only [targets_map, hsecond, hfirst, asked, answered?, href]
    simp

theorem targets_run (hc : c.IsReady) (call : Call) (x : Exchange) :
    (c.store.run call x).2.targets.map some =
      x.targets.map some ++ (c.asked x call).map c.target? := by
  cases call with
  | readSchema collection => exact (congrArg _ (targets_map ..)).trans (targets_readSchema hc ..)
  | addCollection parent title properties =>
    refine (congrArg _ (targets_map ..)).trans ?_
    change (c.addCollection parent title properties x).2.targets.map some = _
    rw [addCollection, run_bind_given]
    exact targets_ask hc ..
  | extendSchema source properties =>
    exact (congrArg _ (targets_map ..)).trans (targets_ask hc ..)
  | addRecord source properties =>
    exact (congrArg _ (targets_map ..)).trans (targets_ask hc ..)
  | readRecord record =>
    exact (congrArg _ (targets_map ..)).trans (targets_ask hc ..)
  | changeRecord record change =>
    exact (congrArg _ (targets_map ..)).trans (targets_ask hc ..)
  | query source query =>
    exact (congrArg _ (targets_map ..)).trans (targets_ask hc ..)

end Client

/-- A call asks for its resources in turn, and each address is that of one resource. A resource is
asked for at its address just when the address keeps its parts in one piece each. -/
theorem addresses_settle {c : Client} (hc : c.IsReady) :
    (∀ (call : Call) (x : Exchange), (c.store.run call x).2.targets.map some =
        x.targets.map some ++ (c.asked x call).map c.target?) ∧
      (∀ r : Resource, c.target? r = some (c.address r) ↔ r.IsPlain) ∧
      ∀ r r' : Resource, (c.address r).path = (c.address r').path → r = r' :=
  ⟨Client.targets_run hc, hc.target?_eq_iff, fun _ _ => hc.address_injective⟩

/-- A client of the usual interface. -/
def Client.usual : Client := ⟨"", "secret", "2025-09-03"⟩

theorem Client.usual_isReady : Client.usual.IsReady where
  base := ⟨[], rfl, by simp⟩
  token := by decide
  version := by decide

/-- A space is encoded, a question mark starts a query. -/
theorem addresses_settle_space : Client.usual.IsReady ∧
    Client.usual.target? (.page "a b") = some (Client.usual.address (.page "a b")) ∧
    Client.usual.target? (.page "a?b") ≠ some (Client.usual.address (.page "a?b")) := by
  refine ⟨Client.usual_isReady, ((addresses_settle Client.usual_isReady).2.1 _).mpr ?_, fun h => ?_⟩
  · refine ⟨fun part hpart => ?_, by simp [Resource.path, isControlOrSpace]⟩
    simp only [Resource.parts, List.mem_cons, List.not_mem_nil, or_false] at hpart
    rcases hpart with rfl | rfl
    all_goals exact
      { unbroken := by simp [segmentBreaks], single := by decide, double := by decide }
  · have hplain := ((addresses_settle Client.usual_isReady).2.1 _).mp h
    exact (hplain.parts "a?b" (by simp [Resource.parts])).unbroken '?' (by simp) (by decide)

/-- An id with dots and slashes reaches a database. -/
theorem not_forall_id_one_segment : ¬ ∀ c : Client, c.IsReady → ∀ id : String,
    c.target? (.page id) = some (c.address (.page id)) ∧
      ∀ other : String, c.target? (.page id) ≠ c.target? (.database other) := by
  intro h
  exact (h Client.usual Client.usual_isReady "../databases/db-1").2 "db-1" (by decide)

end DocTables.Http
