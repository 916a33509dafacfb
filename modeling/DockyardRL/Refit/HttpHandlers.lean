import DockyardRL.Lib.Collective
import DockyardRL.Lib.Dict
import DockyardRL.Lib.Gather
import DockyardRL.Lib.SortByKey
import Mathlib.Data.List.FinRange

/-! The refit over HTTP: every trainer rank serialises its tensors, the handlers are gathered over the
group of all ranks, and one rank for each server sends it those of its ranks. -/
namespace DockyardRL
namespace Refit
namespace HttpHandlers

open Collective Gather SortByKey

variable {T : Type}

/-- A handler: the rank that serialised it, and what it is of. -/
structure Handler (T : Type) where
  rank : ℕ
  name : String
  tensor : T
  deriving DecidableEq

/-- What is given to `all_gather_object`. -/
inductive Gathered (T : Type)
  | uuid (currentDeviceUuid : String)
  | handler (serializedHandler : Handler T)
  deriving DecidableEq

/-- The POST to a server. -/
structure Request (T : Type) where
  url : String
  tensorName : String
  serializedNamedTensors : List (Gathered T)
  flushCache : Bool
  deriving DecidableEq

inductive Raised
  | noMatchingServer (rank : ℕ) (currentDeviceUuid : String) (available : List String)
  deriving DecidableEq

abbrev Trainer (T : Type) := Program (Gathered T) (Request T) (Except Raised Unit)

/-- `get_sglang_url_to_gpu_uuids`, with what the primary workers answered. -/
def getSglangUrlToGpuUuids (urls : List (Option String)) (uuidsList : List (Option (List String))) :
    Dict String (List String) :=
  (urls.zip uuidsList).foldl (fun urlToUuids entry =>
    match entry with
    | (some url,some uuids) => urlToUuids.set url uuids
    | _ => urlToUuids) Dict.empty

/-- `uuid in sglang_gpu_uuids`. -/
def Gathered.isIn (sglangGpuUuids : List String) : Gathered T → Bool
  | .uuid currentDeviceUuid => currentDeviceUuid ∈ sglangGpuUuids
  | .handler _ => false

def matchingRanks (sglangGpuUuids : List String) (allRanksUuids : List (Gathered T)) : List ℕ :=
  (allRanksUuids.zipIdx.filter fun entry => entry.1.isIn sglangGpuUuids).map Prod.snd

/-- `_setup_ipc_gather_group`: the rank that is to gather and send, and the ranks of its server. -/
def setupIpcGatherGroup (currentDeviceUuid : String) (sglangGpuUuids : List String)
    (next : Option (ℕ × List ℕ) → Trainer T) : Trainer T :=
  .gather (.uuid currentDeviceUuid) fun allRanksUuids =>
    match sortByKey id (matchingRanks sglangGpuUuids allRanksUuids) with
    | [] => next none
    | gatherSrc :: ranks => next (some (gatherSrc,gatherSrc :: ranks))

def gatherIpcHandlers (serializedHandler : Handler T) (group : Option (ℕ × List ℕ)) (rank : ℕ)
    (next : Option (List (Gathered T)) → Trainer T) : Trainer T :=
  match group with
  | none => next none
  | some (gatherSrc,ranks) =>
    .gather (.handler serializedHandler) fun allHandlers =>
      next (if rank = gatherSrc then some (gather allHandlers ranks) else none)

def streamTensors (url : String) (group : Option (ℕ × List ℕ)) (rank : ℕ) :
    List (String × T) → Trainer T
  | [] => .done (.ok ())
  | (name,tensor) :: rest =>
    gatherIpcHandlers ⟨rank,name,tensor⟩ group rank fun gatheredHandlers =>
      match gatheredHandlers with
      | none => streamTensors url group rank rest
      | some handlers => .emit ⟨url,name,handlers,false⟩ (streamTensors url group rank rest)

def updateUrl (baseUrl : String) : String := baseUrl ++ "/update_weights_from_tensor"

/-- `stream_weights_via_http_impl`; a GPU of several servers is taken to be of the first one. -/
def streamWeightsViaHttpImpl (paramsGenerator : List (String × T))
    (sglangUrlToGpuUuids : Dict String (List String)) (rank : ℕ) (currentDeviceUuid : String) :
    Trainer T :=
  match sglangUrlToGpuUuids.entries.filter fun server => currentDeviceUuid ∈ server.2 with
  | [] => .done (.error (.noMatchingServer rank currentDeviceUuid sglangUrlToGpuUuids.keys))
  | (baseUrl,sglangGpuUuids) :: _ =>
    setupIpcGatherGroup currentDeviceUuid sglangGpuUuids fun group =>
      streamTensors (updateUrl baseUrl) group rank paramsGenerator

/-- Servers with their GPUs, disjoint, and trainer ranks on all of these GPUs, one on each. -/
structure Placement (n : ℕ) where
  servers : List (String × List String)
  uuids : Fin (n + 1) → String
  nodup_urls : (servers.map Prod.fst).Nodup
  nodup_gpus : ∀ server ∈ servers, server.2.Nodup
  disjoint : ∀ a ∈ servers, ∀ b ∈ servers, ∀ uuid, uuid ∈ a.2 → uuid ∈ b.2 → a = b
  injective : Function.Injective uuids
  covered : ∀ server ∈ servers, ∀ uuid ∈ server.2, ∃ r, uuids r = uuid
  placed : ∀ r, ∃ server ∈ servers, uuids r ∈ server.2

namespace Placement

variable {n : ℕ} (p : Placement n)

def urlToGpuUuids : Dict String (List String) :=
  getSglangUrlToGpuUuids (p.servers.map fun server => some server.1)
    (p.servers.map fun server => some server.2)

def trainers (stream : List (String × T)) (r : Fin (n + 1)) : Trainer T :=
  streamWeightsViaHttpImpl stream p.urlToGpuUuids r.val (p.uuids r)

def requestsTo (s : State (n + 1) (Gathered T) (Request T) (Except Raised Unit)) (baseUrl : String) :
    List (Request T) :=
  (s.effects.map Prod.snd).filter fun request => request.url = updateUrl baseUrl

/-- The request for one tensor has a handler for each GPU of the server, and at the place of a GPU the
one of the trainer rank on that GPU. -/
def HandsOver (server : String × List String) (item : String × T) (request : Request T) : Prop :=
  request.tensorName = item.1 ∧ request.serializedNamedTensors.length = server.2.length ∧
    ∀ (t : ℕ) r, server.2[t]? = some (p.uuids r) →
      request.serializedNamedTensors[t]? = some (Gathered.handler ⟨r.val,item.1,item.2⟩)

/-- In every run no rank is left waiting, all have come to the same gathers, and every server has got one
request for every tensor, with the handlers of its own GPUs at their places. -/
structure RefitExact (stream : List (String × T)) : Prop where
  noneWaits : ∀ s, Reaches (start (p.trainers stream)) s →
    ∃ s', Reaches s s' ∧ s'.Finished fun _ => .ok ()
  gathers : ∀ s, Reaches (start (p.trainers stream)) s → (s.Finished fun _ => .ok ()) →
    s.gathers = stream.length + 1
  requests : ∀ s, Reaches (start (p.trainers stream)) s → (s.Finished fun _ => .ok ()) →
    ∀ server ∈ p.servers, List.Forall₂ (p.HandsOver server) stream (requestsTo s server.1)

/-- A server that has a GPU, and lists its GPUs in the order of the trainer ranks on them. -/
def InRankOrder (server : String × List String) : Prop :=
  server.2 ≠ [] ∧ ∀ (t t' : ℕ) r r', t < t' → server.2[t]? = some (p.uuids r) →
    server.2[t']? = some (p.uuids r') → r < r'

def ranksOf (gpuUuids : List String) : List (Fin (n + 1)) :=
  (List.finRange (n + 1)).filter fun r => p.uuids r ∈ gpuUuids

theorem urlToGpuUuids_entries : p.urlToGpuUuids.entries = p.servers := by
  have hset : ∀ (servers : List (String × List String)) (d : Dict String (List String)),
      (∀ server ∈ servers, server.1 ∉ d.keys) → (servers.map Prod.fst).Nodup →
        (((servers.map fun server => some server.1).zip
            (servers.map fun server => some server.2)).foldl (fun urlToUuids entry =>
          match entry with
          | (some url,some uuids) => urlToUuids.set url uuids
          | _ => urlToUuids) d).entries = d.entries ++ servers := by
    intro servers
    induction servers with
    | nil => intro d _ _; exact (List.append_nil _).symm
    | cons server servers ih =>
      intro d hnew hnodup
      obtain ⟨hhead,htail⟩ := List.nodup_cons.mp hnodup
      obtain ⟨hserver,hservers⟩ := List.forall_mem_cons.mp hnew
      have hentries : (d.set server.1 server.2).entries = d.entries ++ [server] :=
        Dict.assign_of_notMem server.2 hserver
      rw [List.map_cons,List.map_cons,List.zip_cons_cons,List.foldl_cons]
      refine (ih (d.set server.1 server.2) (fun other hother => ?_) htail).trans ?_
      · rw [Dict.keys,hentries,List.map_append,List.mem_append,not_or]
        refine ⟨hservers other hother,fun hmem => hhead ?_⟩
        have heq : other.1 = server.1 := by simpa using hmem
        exact heq ▸ List.mem_map_of_mem hother
      · rw [hentries,List.append_assoc]
        rfl
  exact hset p.servers Dict.empty (fun _ _ => List.not_mem_nil) p.nodup_urls

theorem filter_servers {server : String × List String} (hserver : server ∈ p.servers)
    {r : Fin (n + 1)} (hr : p.uuids r ∈ server.2) :
    p.servers.filter (fun server => p.uuids r ∈ server.2) = [server] := by
  have hnodup : (p.servers.filter fun server => p.uuids r ∈ server.2).Nodup :=
    (List.Nodup.of_map _ p.nodup_urls).filter _
  refine List.perm_singleton.mp ((List.perm_ext_iff_of_nodup hnodup (List.nodup_singleton _)).mpr ?_)
  intro other
  rw [List.mem_filter,List.mem_singleton,decide_eq_true_iff]
  constructor
  · rintro ⟨hother,hmem⟩
    exact p.disjoint other hother server hserver _ hmem hr
  · rintro rfl
    exact ⟨hserver,hr⟩

theorem matchingRanks_ofFn (gpuUuids : List String) :
    matchingRanks gpuUuids (List.ofFn fun r => (Gathered.uuid (p.uuids r) : Gathered T)) =
      (p.ranksOf gpuUuids).map Fin.val := by
  have hindexed : (List.ofFn fun r => (Gathered.uuid (p.uuids r) : Gathered T)).zipIdx =
      (List.finRange (n + 1)).map fun r => (Gathered.uuid (p.uuids r),r.val) := by
    refine List.ext_getElem (by simp) fun i _ _ => ?_
    rw [List.getElem_zipIdx,List.getElem_ofFn,List.getElem_map,List.getElem_finRange]
    simp
  rw [matchingRanks,hindexed,List.filter_map,List.map_map,ranksOf]
  rfl

theorem sorted_ranksOf (gpuUuids : List String) : (p.ranksOf gpuUuids).Pairwise (· < ·) :=
  (List.pairwise_lt_finRange (n + 1)).filter _

theorem sortByKey_ranksOf (gpuUuids : List String) :
    sortByKey id ((p.ranksOf gpuUuids).map Fin.val) = (p.ranksOf gpuUuids).map Fin.val := by
  refine sortByKey_eq (List.Perm.refl _) ?_ fun a _ b _ heq => heq
  rw [List.pairwise_map]
  exact (p.sorted_ranksOf gpuUuids).imp fun hlt => Nat.le_of_lt hlt

def groupOf (gpuUuids : List String) : Option (ℕ × List ℕ) :=
  match (p.ranksOf gpuUuids).map Fin.val with
  | [] => none
  | gatherSrc :: ranks => some (gatherSrc,gatherSrc :: ranks)

def serverOf (r : Fin (n + 1)) : String × List String :=
  (p.servers.filter fun server => p.uuids r ∈ server.2).head?.getD ("",[])

theorem serverOf_eq {server : String × List String} (hserver : server ∈ p.servers) {r : Fin (n + 1)}
    (hr : p.uuids r ∈ server.2) : p.serverOf r = server := by
  rw [serverOf,p.filter_servers hserver hr]
  rfl

theorem serverOf_mem (r : Fin (n + 1)) : p.serverOf r ∈ p.servers := by
  obtain ⟨server,hserver,hr⟩ := p.placed r
  rwa [p.serverOf_eq hserver hr]

theorem mem_serverOf (r : Fin (n + 1)) : p.uuids r ∈ (p.serverOf r).2 := by
  obtain ⟨server,hserver,hr⟩ := p.placed r
  rwa [p.serverOf_eq hserver hr]

theorem groupOf_serverOf (r : Fin (n + 1)) : ∃ gatherSrc,
    p.groupOf (p.serverOf r).2 = some (gatherSrc,(p.ranksOf (p.serverOf r).2).map Fin.val) ∧
      ((p.ranksOf (p.serverOf r).2).map Fin.val).head? = some gatherSrc := by
  have hmem : r ∈ p.ranksOf (p.serverOf r).2 :=
    List.mem_filter.mpr ⟨List.mem_finRange r,decide_eq_true (p.mem_serverOf r)⟩
  unfold groupOf
  cases hranks : (p.ranksOf (p.serverOf r).2).map Fin.val with
  | nil => rw [List.map_eq_nil_iff.mp hranks] at hmem; cases hmem
  | cons gatherSrc ranks => exact ⟨gatherSrc,rfl,rfl⟩

theorem trainers_eq (stream : List (String × T)) (r : Fin (n + 1)) :
    p.trainers stream r = .gather (.uuid (p.uuids r)) fun allRanksUuids =>
      match sortByKey id (matchingRanks (p.serverOf r).2 allRanksUuids) with
      | [] => streamTensors (updateUrl (p.serverOf r).1) none r.val stream
      | gatherSrc :: ranks =>
        streamTensors (updateUrl (p.serverOf r).1) (some (gatherSrc,gatherSrc :: ranks)) r.val stream := by
  unfold trainers streamWeightsViaHttpImpl
  rw [urlToGpuUuids_entries,p.filter_servers (p.serverOf_mem r) (p.mem_serverOf r)]
  rfl

def requestFor (server : String × List String) (item : String × T) : Request T :=
  ⟨updateUrl server.1,item.1,
    (p.ranksOf server.2).map fun q => .handler ⟨q.val,item.1,item.2⟩,false⟩

def sentBy (stream : List (String × T)) (r : Fin (n + 1)) : List (Request T) :=
  if some r = (p.ranksOf (p.serverOf r).2).head? then stream.map (p.requestFor (p.serverOf r)) else []

theorem gather_handlers (gpuUuids : List String) (item : String × T) :
    gather (List.ofFn fun q : Fin (n + 1) => Gathered.handler ⟨q.val,item.1,item.2⟩)
        ((p.ranksOf gpuUuids).map Fin.val) =
      (p.ranksOf gpuUuids).map fun q => .handler ⟨q.val,item.1,item.2⟩ := by
  rw [gather,List.filterMap_map]
  refine (List.filterMap_congr fun q _ => ?_).trans (congrFun List.filterMap_eq_map _)
  rw [Function.comp_apply,List.getElem?_ofFn,dif_pos q.isLt]
  rfl

theorem lockstep_streamTensors (stream : List (String × T)) :
    Lockstep (fun r => streamTensors (updateUrl (p.serverOf r).1) (p.groupOf (p.serverOf r).2) r.val
      stream) stream.length (p.sentBy stream) fun _ => .ok () := by
  induction stream with
  | nil =>
    refine (Lockstep.done (fun _ => []) fun _ => Except.ok ()).of_eq rfl (funext fun r => ?_)
    exact ite_self _
  | cons item stream ih =>
    let front (r : Fin (n + 1)) : List (Request T) :=
      if some r = (p.ranksOf (p.serverOf r).2).head? then [p.requestFor (p.serverOf r) item] else []
    let next (r : Fin (n + 1)) (allHandlers : List (Gathered T)) : Trainer T :=
      match p.groupOf (p.serverOf r).2 with
      | none => .done (.ok ())
      | some (gatherSrc,ranks) =>
        match if r.val = gatherSrc then some (gather allHandlers ranks) else none with
        | none => streamTensors (updateUrl (p.serverOf r).1) (p.groupOf (p.serverOf r).2) r.val stream
        | some handlers => .emit ⟨updateUrl (p.serverOf r).1,item.1,handlers,false⟩
            (streamTensors (updateUrl (p.serverOf r).1) (p.groupOf (p.serverOf r).2) r.val stream)
    refine (@Lockstep.gather _ _ _ _ _ (fun r : Fin (n + 1) => Gathered.handler ⟨r.val,item.1,item.2⟩)
      next _ _ ((ih.prepend front).of_eq ?_ rfl)).of_eq ?_ ?_
    · funext r
      obtain ⟨gatherSrc,hgroup,hhead⟩ := p.groupOf_serverOf r
      have hsrc : r.val = gatherSrc ↔ some r = (p.ranksOf (p.serverOf r).2).head? := by
        rw [List.head?_map] at hhead
        obtain ⟨q,hq,rfl⟩ := Option.map_eq_some_iff.mp hhead
        rw [hq,Option.some_inj,Fin.ext_iff]
      dsimp only [front,next]
      rw [hgroup]
      dsimp only
      by_cases hr : some r = (p.ranksOf (p.serverOf r).2).head?
      · rw [if_pos hr,if_pos (hsrc.mpr hr),gather_handlers]
        rfl
      · rw [if_neg hr,if_neg fun heq => hr (hsrc.mp heq)]
        rfl
    · funext r
      obtain ⟨gatherSrc,hgroup,-⟩ := p.groupOf_serverOf r
      obtain ⟨name,tensor⟩ := item
      simp only [streamTensors,gatherIpcHandlers,hgroup,next]
    · funext r
      dsimp only [front,sentBy]
      split_ifs
      · rfl
      · rfl

theorem lockstep_trainers (stream : List (String × T)) :
    Lockstep (p.trainers stream) (stream.length + 1) (p.sentBy stream) fun _ => .ok () := by
  refine (Lockstep.gather ((p.lockstep_streamTensors stream).of_eq ?_ rfl)).of_eq
    (funext fun r => p.trainers_eq stream r) rfl
  funext r
  rw [matchingRanks_ofFn,sortByKey_ranksOf]
  unfold groupOf
  cases (p.ranksOf (p.serverOf r).2).map Fin.val <;> rfl

theorem updateUrl_injective : Function.Injective updateUrl := by
  intro a b heq
  have hlists := congrArg String.toList heq
  rw [updateUrl,updateUrl,String.toList_append,String.toList_append,List.append_left_inj] at hlists
  exact String.toList_inj.mp hlists

theorem mem_ranksOf {gpuUuids : List String} {r : Fin (n + 1)} :
    r ∈ p.ranksOf gpuUuids ↔ p.uuids r ∈ gpuUuids := by
  rw [ranksOf,List.mem_filter,decide_eq_true_iff,and_iff_right (List.mem_finRange r)]

theorem serverOf_of_url {stream : List (String × T)} {server : String × List String}
    (hserver : server ∈ p.servers) {q : Fin (n + 1)} {request : Request T}
    (hrequest : request ∈ p.sentBy stream q) (hurl : request.url = updateUrl server.1) :
    p.serverOf q = server ∧ some q = (p.ranksOf server.2).head? := by
  unfold sentBy at hrequest
  split_ifs at hrequest with hsrc
  · obtain ⟨item,-,rfl⟩ := List.mem_map.mp hrequest
    have hsame : p.serverOf q = server :=
      List.inj_on_of_nodup_map p.nodup_urls (p.serverOf_mem q) hserver (updateUrl_injective hurl)
    exact ⟨hsame,hsame ▸ hsrc⟩
  · cases hrequest

theorem requestsTo_finished {stream : List (String × T)}
    {s : State (n + 1) (Gathered T) (Request T) (Except Raised Unit)}
    (hs : Reaches (start (p.trainers stream)) s) (hfinished : s.Finished fun _ => .ok ())
    {server : String × List String} (hserver : server ∈ p.servers) :
    requestsTo s server.1 = if server.2 = [] then [] else stream.map (p.requestFor server) := by
  obtain ⟨-,heffects⟩ := (p.lockstep_trainers stream).finished (Nat.succ_pos n) hs hfinished
  have hother : ∀ q, some q ≠ (p.ranksOf server.2).head? → ∀ request ∈ s.effectsOf q,
      decide (request.url = updateUrl server.1) = false := by
    intro q hq request hrequest
    rw [heffects q] at hrequest
    exact decide_eq_false fun hurl => hq (p.serverOf_of_url hserver hrequest hurl).2
  unfold requestsTo
  cases hranks : p.ranksOf server.2 with
  | nil =>
    have hnone : server.2 = [] := by
      refine List.eq_nil_iff_forall_not_mem.mpr fun uuid huuid => ?_
      obtain ⟨r,rfl⟩ := p.covered server hserver uuid huuid
      have hmem := p.mem_ranksOf.mpr huuid
      rw [hranks] at hmem
      cases hmem
    have hq : ∀ q : Fin (n + 1), some q ≠ (p.ranksOf server.2).head? := by
      intro q
      rw [hranks]
      exact Option.some_ne_none q
    rw [if_pos hnone,filter_effects fun q _ => hother q (hq q),List.filter_eq_nil_iff]
    · intro request hrequest
      rw [hother 0 (hq 0) request hrequest]
      exact Bool.false_ne_true
  | cons src ranks =>
    have hsrc : p.uuids src ∈ server.2 := p.mem_ranksOf.mp (hranks ▸ List.mem_cons_self)
    have hsome : server.2 ≠ [] := List.ne_nil_of_mem hsrc
    have hsame := p.serverOf_eq hserver hsrc
    rw [if_neg hsome,@filter_effects _ _ _ _ _ _ src fun q hq => hother q ?_,heffects src,sentBy,hsame,
      hranks,List.head?_cons,if_pos rfl,List.filter_eq_self]
    · intro request hrequest
      obtain ⟨item,-,rfl⟩ := List.mem_map.mp hrequest
      exact decide_eq_true rfl
    · rw [hranks,List.head?_cons]
      exact fun heq => hq (Option.some.inj heq)

theorem handsOver_iff {server : String × List String} (hserver : server ∈ p.servers)
    (item : String × T) :
    p.HandsOver server item (p.requestFor server item) ↔
      ∀ (t t' : ℕ) r r', t < t' → server.2[t]? = some (p.uuids r) →
        server.2[t']? = some (p.uuids r') → r < r' := by
  obtain ⟨order,horder⟩ : ∃ order : List (Fin (n + 1)), order.map p.uuids = server.2 := by
    have hrange : server.2 ∈ Set.range (List.map p.uuids) := by
      rw [Set.range_list_map]
      exact fun uuid huuid => p.covered server hserver uuid huuid
    exact hrange
  have hat : ∀ (t : ℕ) r, server.2[t]? = some (p.uuids r) ↔ order[t]? = some r := by
    intro t r
    rw [← horder,List.getElem?_map,Option.map_eq_some_iff]
    constructor
    · rintro ⟨q,hq,heq⟩
      rw [hq,p.injective heq]
    · intro hq
      exact ⟨r,hq,rfl⟩
  have hnodup : order.Nodup := List.Nodup.of_map p.uuids (horder ▸ p.nodup_gpus server hserver)
  have hperm : order.Perm (p.ranksOf server.2) := by
    refine (List.perm_ext_iff_of_nodup hnodup ((List.nodup_finRange _).filter _)).mpr fun r => ?_
    show r ∈ order ↔ r ∈ p.ranksOf server.2
    rw [mem_ranksOf,← horder,List.mem_map_of_injective p.injective]
  have hplaces : p.HandsOver server item (p.requestFor server item) ↔
      order = p.ranksOf server.2 := by
    unfold HandsOver requestFor
    dsimp only
    constructor
    · rintro ⟨-,-,hhandlers⟩
      refine List.ext_getElem? fun t => ?_
      cases hr : order[t]? with
      | none =>
        rw [List.getElem?_eq_none_iff] at hr
        exact (List.getElem?_eq_none (hperm.length_eq ▸ hr)).symm
      | some r =>
        have hhandler := hhandlers t r ((hat t r).mpr hr)
        rw [List.getElem?_map,Option.map_eq_some_iff] at hhandler
        obtain ⟨q,hq,heq⟩ := hhandler
        rw [hq]
        exact congrArg some (Fin.ext (congrArg Handler.rank (Gathered.handler.inj heq))).symm
    · intro heq
      refine ⟨rfl,?_,fun t r htr => ?_⟩
      · rw [List.length_map,← heq,← horder,List.length_map]
      · rw [List.getElem?_map,← heq,(hat t r).mp htr,Option.map_some]
  rw [hplaces]
  simp only [hat]
  constructor
  · intro heq t t' r r' hlt hr hr'
    have hsorted := p.sorted_ranksOf server.2
    rw [← heq] at hsorted
    obtain ⟨ht,rfl⟩ := List.getElem?_eq_some_iff.mp hr
    obtain ⟨ht',rfl⟩ := List.getElem?_eq_some_iff.mp hr'
    exact List.pairwise_iff_getElem.mp hsorted t t' ht ht' hlt
  · intro h
    have hsorted : order.Pairwise (· < ·) := List.pairwise_iff_getElem.mpr fun t t' ht ht' hlt =>
      h t t' _ _ hlt (List.getElem?_eq_getElem ht) (List.getElem?_eq_getElem ht')
    exact hperm.eq_of_pairwise (fun a b _ _ hab hba => absurd hab (not_lt_of_gt hba)) hsorted
      (p.sorted_ranksOf server.2)

variable {p} in
theorem RefitExact.inRankOrder {stream : List (String × T)} (h : p.RefitExact stream)
    (hstream : stream ≠ []) {server : String × List String} (hserver : server ∈ p.servers) :
    p.InRankOrder server := by
  obtain ⟨s,hs,hfinished⟩ := h.noneWaits _ .refl
  have hrequests := h.requests s hs hfinished server hserver
  rw [p.requestsTo_finished hs hfinished hserver] at hrequests
  obtain ⟨item,rest,rfl⟩ := List.exists_cons_of_ne_nil hstream
  split_ifs at hrequests with hnone
  · cases hrequests
  · rw [List.map_cons,List.forall₂_cons] at hrequests
    exact ⟨hnone,(p.handsOver_iff hserver item).mp hrequests.1⟩

/-- A refit is exact exactly when it has nothing to send, or every server has a GPU and lists its GPUs
in the order of the trainer ranks on them. -/
theorem refitExact_iff (stream : List (String × T)) :
    p.RefitExact stream ↔ stream = [] ∨ ∀ server ∈ p.servers, p.InRankOrder server := by
  refine ⟨fun h => or_iff_not_imp_left.mpr fun hstream server hserver =>
    h.inRankOrder hstream hserver,fun h => ?_⟩
  have hlockstep := p.lockstep_trainers stream
  refine ⟨fun s hs => hlockstep.completes (Nat.succ_pos n) hs,
    fun s hs hfinished => (hlockstep.finished (Nat.succ_pos n) hs hfinished).1,
    fun s hs hfinished server hserver => ?_⟩
  rw [p.requestsTo_finished hs hfinished hserver]
  rcases h with rfl | horder
  · rw [List.map_nil,ite_self]
    exact .nil
  · rw [if_neg (horder server hserver).1,List.forall₂_map_right_iff,List.forall₂_same]
    exact fun item _ => (p.handsOver_iff hserver item).mpr (horder server hserver).2

/-- Two trainer ranks whose GPUs the one server lists the other way round. -/
def swapped : Placement 1 where
  servers := [("http://localhost:30000",["GPU-b","GPU-a"])]
  uuids := ![ "GPU-a","GPU-b"]
  nodup_urls := by decide
  nodup_gpus := by decide
  disjoint := by simp
  injective := by decide
  covered := by simp [Fin.exists_fin_two]
  placed := by simp [Fin.forall_fin_two]

/-- The server gets the handlers of its two GPUs in the wrong places. -/
theorem swapped_not_exact : ¬swapped.RefitExact [("lm_head.weight",())] := by
  intro h
  have horder := (h.inRankOrder (List.cons_ne_nil _ _) List.mem_cons_self).2 0 1 1 0 (by decide) rfl rfl
  exact absurd horder (by decide)

end Placement

end HttpHandlers
end Refit
end DockyardRL
