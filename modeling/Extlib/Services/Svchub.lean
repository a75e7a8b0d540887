import Extlib.Machine.Loop
import Extlib.Machine.Simulation
import Extlib.Srrp.Packet

namespace Extlib
namespace Services

open Text Srrp Machine

/-!
# Services by header

`svcx.c` keeps the services of a hub in a list, the latest in front.  To delete
a service and to deal with a request the list is searched from the front, and
the search stops at the first service whose header the given one begins with.
It stops at the service of that very header as long as no service with a
shorter header that the given one begins with has been added since.
-/

def serviceHeaderLen : Nat := 64

/-- What a service does with a request: the value returned, and the response if
there is one. -/
abbrev SvcHandleFunc := SrrpPacket -> Int × Option SrrpPacket

structure Service where
  header : CString
  func : SvcHandleFunc

/-- The head of the list first. -/
structure Svchub where
  services : List Service

def svchubNew : Svchub := ⟨[]⟩

/-- The hub left behind and the value returned. -/
def svchubAddService (hub : Svchub) (header : CString) (func : SvcHandleFunc) : Svchub × Int :=
  (⟨⟨header.slice 0 (serviceHeaderLen - 1), func⟩ :: hub.services⟩, 0)

/-- `strncmp` over the length of the header of the service. -/
def servesHeader (header : CString) (pos : Service) : Bool := pos.header.chars.isPrefixOf header.chars

def svchubDelService (hub : Svchub) (header : CString) : Svchub × Int :=
  match hub.services.find? (servesHeader header) with
  | some _ => (⟨hub.services.eraseP (servesHeader header)⟩, 0)
  | none => (hub, -1)

/-- The value returned and the response. -/
def svchubDeal (hub : Svchub) (req : SrrpPacket) : Int × Option SrrpPacket :=
  match hub.services.find? (servesHeader req.header) with
  | some pos => pos.func req
  | none => (-1, none)

/-! ## What has been registered -/

/-- The function registered for each header. -/
abbrev Registry := CString -> Option SvcHandleFunc

namespace Registry

def empty : Registry := fun _ => none

def add (registry : Registry) (header : CString) (func : SvcHandleFunc) : Registry :=
  fun other => if other = header then some func else registry other

def remove (registry : Registry) (header : CString) : Registry :=
  fun other => if other = header then none else registry other

end Registry

/-- The service of exactly this header. -/
def serviceOf (hub : Svchub) (header : CString) : Option Service := hub.services.find? (·.header = header)

/-- The hub as a registry. -/
def registered (hub : Svchub) : Registry := fun header => (serviceOf hub header).map (·.func)

inductive SvcCall where
  | add (header : CString) (func : SvcHandleFunc)
  | del (header : CString)
  | deal (req : SrrpPacket)

/-- The hub, and beside it what the calls before have registered. -/
def svcStep : Svchub × Registry -> SvcCall -> Option ((Svchub × Registry) × Int)
  | (hub, registry), .add header func =>
      some (((svchubAddService hub header func).1, registry.add header func), (svchubAddService hub header func).2)
  | (hub, registry), .del header =>
      some (((svchubDelService hub header).1, registry.remove header), (svchubDelService hub header).2)
  | (hub, registry), .deal req => some ((hub, registry), (svchubDeal hub req).1)

/-- Headers are not empty and shorter than the array they are copied to, and
one that is registered is not added again. -/
def Proper : Svchub × Registry -> SvcCall -> Prop
  | (_, registry), .add header _ => header.chars ≠ [] ∧ header.length < serviceHeaderLen ∧ registry header = none
  | _, .del header => header.chars ≠ [] ∧ header.length < serviceHeaderLen
  | _, .deal _ => True

/-- A call does what it is for: a deletion takes out the service of the header
and no other, and returns -1 and changes nothing when there is none; a request
is passed to the function registered for its header. -/
def Dispatches : Svchub × Registry -> SvcCall -> Prop
  | (hub, registry), .add header func =>
      registered (svchubAddService hub header func).1 = registry.add header func
  | (hub, registry), .del header =>
      (registry header = none -> svchubDelService hub header = (hub, -1)) ∧
        (registry header ≠ none -> (svchubDelService hub header).2 = 0 ∧
          registered (svchubDelService hub header).1 = registry.remove header)
  | (hub, registry), .deal req =>
      ∀ func, registry req.header = some func -> svchubDeal hub req = func req ∧
        ∃ pos, hub.services.find? (servesHeader req.header) = some pos ∧ pos.header = req.header ∧ pos.func = func

/-- No service whose header is shorter, and which the header begins with,
stands in front of the service of the header, or stands there without it. -/
def NoShorterInFront (header : CString) (services : List Service) : Prop :=
  ∀ i, ∀ inside : i < services.length, services[i].header.chars <+: header.chars ->
    services[i].header = header ∨ ∃ earlier ∈ services.take i, earlier.header = header

/-- A deletion, and a request with a registered header, find no shorter header
in front. -/
def Unobstructed : Svchub × Registry -> SvcCall -> Prop
  | _, .add .. => True
  | (hub, _), .del header => NoShorterInFront header hub.services
  | (hub, registry), .deal req => registry req.header ≠ none -> NoShorterInFront req.header hub.services

/-! ## The two searches -/

section Searches

variable {hub : Svchub} {header : CString}

theorem servesHeader_iff {pos : Service} : servesHeader header pos ↔ pos.header.chars <+: header.chars :=
  List.isPrefixOf_iff_prefix

/-- The search of the code stops at the service of the header, or at nothing
when there is none, exactly when no shorter header is in front. -/
theorem find_servesHeader_iff (hub : Svchub) (header : CString) :
    hub.services.find? (servesHeader header) = serviceOf hub header ↔ NoShorterInFront header hub.services := by
  rw [serviceOf, find_eq_find_iff]
  · simp only [servesHeader_iff, decide_eq_true_iff, NoShorterInFront]
  · intro pos same
    rw [servesHeader_iff, of_decide_eq_true same]

theorem serviceOf_header {pos : Service} (found : serviceOf hub header = some pos) : pos.header = header := by
  have matched := List.find?_some found
  exact of_decide_eq_true matched

theorem find_header_cons (service : Service) (services : List Service) (header : CString) :
    (service :: services).find? (·.header = header) =
      if service.header = header then some service else services.find? (·.header = header) := by
  by_cases own : service.header = header <;> simp [own]

theorem registered_eq_none_iff : registered hub header = none ↔ serviceOf hub header = none := Option.map_eq_none_iff

/-- With distinct headers a service is the one of its header. -/
theorem serviceOf_of_mem (distinct : (hub.services.map (·.header)).Nodup) {pos : Service}
    (listed : pos ∈ hub.services) : serviceOf hub pos.header = some pos := by
  cases found : serviceOf hub pos.header with
  | none => exact absurd (decide_eq_true rfl) (List.find?_eq_none.mp found pos listed)
  | some other =>
      have same := serviceOf_header found
      rw [List.inj_on_of_nodup_map distinct (List.mem_of_find?_eq_some found) listed same]

/-- What a deletion takes out is the service that the search stops at. -/
theorem registered_eraseP (distinct : (hub.services.map (·.header)).Nodup) {matched : Service -> Bool} {pos : Service}
    (found : hub.services.find? matched = some pos) :
    registered ⟨hub.services.eraseP matched⟩ = (registered hub).remove pos.header := by
  rcases find_split found with ⟨before, after, split, erased⟩
  have apart : pos.header ∉ (before ++ after).map (·.header) := by
    have whole := distinct
    rw [split, List.map_append, List.map_cons, List.nodup_middle, List.nodup_cons] at whole
    rw [List.map_append]
    exact whole.1
  funext other
  rw [Registry.remove, registered, registered, serviceOf, serviceOf, erased, split]
  dsimp only
  split
  case isTrue same =>
    subst same
    rw [List.find?_eq_none.mpr]
    · rfl
    · intro service listed here
      exact apart (List.mem_map.mpr ⟨service, listed, of_decide_eq_true here⟩)
  case isFalse different =>
    rw [List.find?_append, List.find?_append, find_header_cons, if_neg (fun same => different same.symm)]

end Searches

/-! ## Each call -/

/-- The hub holds what has been registered, each header once. -/
structure Tracks (state : Svchub × Registry) : Prop where
  distinct : (state.1.services.map (·.header)).Nodup
  same : registered state.1 = state.2

section Calls

variable {hub : Svchub} {registry : Registry}

/-- A proper header is stored whole. -/
theorem services_add {header : CString} (short : header.length < serviceHeaderLen) (func : SvcHandleFunc) :
    (svchubAddService hub header func).1.services = ⟨header, func⟩ :: hub.services := by
  have whole : header.slice 0 (serviceHeaderLen - 1) = header := by
    ext1
    rw [CString.slice_chars, List.drop_zero]
    exact List.take_of_length_le (Nat.le_pred_of_lt short)
  rw [svchubAddService, whole]

theorem registered_add {header : CString} (short : header.length < serviceHeaderLen) (func : SvcHandleFunc) :
    registered (svchubAddService hub header func).1 = (registered hub).add header func := by
  funext other
  rw [registered, serviceOf, services_add short, Registry.add, find_header_cons, registered, serviceOf]
  dsimp only
  split
  case isTrue same => rw [if_pos same.symm, Option.map_some]
  case isFalse different => rw [if_neg (fun same => different same.symm)]

/-- A deletion is right exactly when its search stops where it should. -/
theorem dispatches_del_iff (tracks : Tracks (hub, registry)) (header : CString) :
    Dispatches (hub, registry) (.del header) ↔ hub.services.find? (servesHeader header) = serviceOf hub header := by
  have same : registered hub = registry := tracks.same
  subst same
  cases exact : serviceOf hub header with
  | none =>
      have unknown : registered hub header = none := registered_eq_none_iff.mpr exact
      constructor
      · rintro ⟨nothing, _⟩
        have unchanged := nothing unknown
        unfold svchubDelService at unchanged
        split at unchanged
        case h_1 => cases congrArg Prod.snd unchanged
        case h_2 missed => exact missed
      · intro missed
        refine ⟨fun _ => ?_, fun known => absurd unknown known⟩
        rw [svchubDelService, missed]
  | some service =>
      have known : registered hub header ≠ none := by
        rw [Ne, registered_eq_none_iff, exact]
        exact Option.some_ne_none service
      constructor
      · rintro ⟨_, deletes⟩
        rcases deletes known with ⟨returned, removed⟩
        unfold svchubDelService at returned removed
        cases found : hub.services.find? (servesHeader header) with
        | none =>
            rw [found] at returned
            cases returned
        | some pos =>
            rw [found] at removed
            have listed := List.mem_of_find?_eq_some found
            -- what has gone is the service found, and it should be the one of the header
            rw [registered_eraseP tracks.distinct found] at removed
            have gone := congrFun removed pos.header
            rw [Registry.remove, if_pos rfl, Registry.remove] at gone
            split at gone
            case isTrue own => rw [← exact, ← own, serviceOf_of_mem tracks.distinct listed]
            case isFalse =>
              have present := registered_eq_none_iff.mp gone.symm
              rw [serviceOf_of_mem tracks.distinct listed] at present
              cases present
      · intro found
        refine ⟨fun unknown => absurd unknown known, fun _ => ?_⟩
        have own := serviceOf_header exact
        rw [svchubDelService, found]
        refine ⟨rfl, ?_⟩
        dsimp only
        rw [registered_eraseP tracks.distinct found, own]

/-- A request is passed on right exactly when its search stops where it should. -/
theorem dispatches_deal_iff (tracks : Tracks (hub, registry)) (req : SrrpPacket) :
    Dispatches (hub, registry) (.deal req) ↔
      (registry req.header ≠ none -> hub.services.find? (servesHeader req.header) = serviceOf hub req.header) := by
  have same : registered hub = registry := tracks.same
  subst same
  constructor
  · intro passes known
    rcases Option.ne_none_iff_exists'.mp known with ⟨func, here⟩
    rcases (passes func here).2 with ⟨pos, found, own, _⟩
    rw [found, ← own, serviceOf_of_mem tracks.distinct (List.mem_of_find?_eq_some found)]
  · intro finds func here
    have known : registered hub req.header ≠ none := by
      rw [here]
      exact Option.some_ne_none func
    rcases Option.map_eq_some_iff.mp here with ⟨pos, exact, rfl⟩
    have found := (finds known).trans exact
    exact ⟨by rw [svchubDeal, found], pos, found, serviceOf_header exact, rfl⟩

theorem dispatches_iff {state : Svchub × Registry} {call : SvcCall} (proper : Proper state call)
    (tracks : Tracks state) : Dispatches state call ↔ Unobstructed state call := by
  rcases state with ⟨hub, registry⟩
  cases call with
  | add header func =>
      refine iff_of_true ?_ trivial
      rw [Dispatches, registered_add proper.2.1]
      exact congrArg (·.add header func) tracks.same
  | del header => exact (dispatches_del_iff tracks header).trans (find_servesHeader_iff hub header)
  | deal req =>
      rw [dispatches_deal_iff tracks, find_servesHeader_iff]
      exact Iff.rfl

/-- A right call leaves the hub with what is registered. -/
theorem Tracks.step {state : Svchub × Registry} {call : SvcCall} {after : (Svchub × Registry) × Int}
    (proper : Proper state call) (tracks : Tracks state) (right : Dispatches state call)
    (steps : svcStep state call = some after) : Tracks after.1 := by
  rcases state with ⟨hub, registry⟩
  have same : registered hub = registry := tracks.same
  cases call with
  | add header func =>
      cases steps
      refine ⟨?_, right⟩
      change ((svchubAddService hub header func).1.services.map (·.header)).Nodup
      rw [services_add proper.2.1, List.map_cons, List.nodup_cons]
      refine ⟨?_, tracks.distinct⟩
      intro listed
      rcases List.mem_map.mp listed with ⟨service, member, own⟩
      have unknown := proper.2.2
      rw [← same, registered_eq_none_iff] at unknown
      exact List.find?_eq_none.mp unknown service member (decide_eq_true own)
  | del header =>
      cases steps
      by_cases known : registry header = none
      · have unchanged : (svchubDelService hub header).1 = hub := congrArg Prod.fst (right.1 known)
        constructor
        · change ((svchubDelService hub header).1.services.map (·.header)).Nodup
          rw [unchanged]
          exact tracks.distinct
        · change registered (svchubDelService hub header).1 = registry.remove header
          rw [unchanged]
          funext other
          rw [Registry.remove]
          split
          case isTrue own => rw [own, same, known]
          case isFalse => exact congrFun same other
      · refine ⟨?_, (right.2 known).2⟩
        change ((svchubDelService hub header).1.services.map (·.header)).Nodup
        unfold svchubDelService
        split
        case h_1 => exact tracks.distinct.sublist (List.eraseP_sublist.map _)
        case h_2 => exact tracks.distinct
  | deal req =>
      cases steps
      exact tracks

end Calls

/-! ## Runs -/

/-- Every call of a run does what it is for exactly when none is made while a
service with a shorter header is in front. -/
theorem services_dispatch_iff {calls : List SvcCall}
    (proper : EveryInput svcStep Proper (svchubNew, Registry.empty) calls) :
    EveryInput svcStep Dispatches (svchubNew, Registry.empty) calls ↔
      EveryInput svcStep Unobstructed (svchubNew, Registry.empty) calls := by
  refine everyInput_iff Tracks (fun _ _ => dispatches_iff) ?_ proper ⟨List.nodup_nil, rfl⟩
  intro state call after here tracks unobstructed steps
  exact tracks.step here ((dispatches_iff here tracks).mpr unobstructed) steps

private theorem longName_nulFree : (0 : UInt8) ∉ ascii "/ab" := by decide

private def longName : CString := ⟨ascii "/ab", longName_nulFree⟩

private theorem shortName_nulFree : (0 : UInt8) ∉ ascii "/a" := by decide

private def shortName : CString := ⟨ascii "/a", shortName_nulFree⟩

private def answer (value : Int) : SvcHandleFunc := fun _ => (value, none)

private theorem longName_proper : longName.chars ≠ [] ∧ longName.length < serviceHeaderLen := by decide

private theorem proper_two (first second : CString) (call : SvcCall)
    (short : first.length < serviceHeaderLen ∧ second.length < serviceHeaderLen)
    (nonempty : first.chars ≠ [] ∧ second.chars ≠ []) (different : second ≠ first)
    (proper : ∀ state, Proper state call) :
    EveryInput svcStep Proper (svchubNew, Registry.empty)
      [.add first (answer 1), .add second (answer 2), call] := by
  refine ⟨⟨nonempty.1, short.1, rfl⟩, ?_⟩
  rintro _ ⟨⟩
  refine ⟨⟨nonempty.2, short.2, if_neg different⟩, ?_⟩
  rintro _ ⟨⟩
  exact ⟨proper _, fun _ _ => trivial⟩

theorem services_dispatch_iff_two :
    EveryInput svcStep Dispatches (svchubNew, Registry.empty)
      [.add shortName (answer 1), .add longName (answer 2), .del longName] := by
  have proper := proper_two shortName longName (.del longName) (by decide) (by decide) (by decide) fun _ => longName_proper
  refine (services_dispatch_iff proper).mpr ⟨trivial, ?_⟩
  rintro _ ⟨⟩
  refine ⟨trivial, ?_⟩
  rintro _ ⟨⟩
  refine ⟨?_, fun _ _ => trivial⟩
  intro i inside _
  match i, inside with
  | 0, _ => exact Or.inl rfl
  | 1, _ => exact Or.inr ⟨_, List.mem_cons_self, rfl⟩

/-- The latest service is the shorter one, and it goes instead of the longer. -/
theorem shorterName_deleted : ¬ ∀ calls : List SvcCall,
    EveryInput svcStep Proper (svchubNew, Registry.empty) calls ->
      EveryInput svcStep Dispatches (svchubNew, Registry.empty) calls := by
  intro always
  have proper := proper_two longName shortName (.del longName) (by decide) (by decide) (by decide) fun _ => longName_proper
  have deletes := (((always _ proper).2 _ rfl).2 _ rfl).1
  have known : ((Registry.empty.add longName (answer 1)).add shortName (answer 2)) longName ≠ none := by
    rw [Registry.add, if_neg (by decide), Registry.add, if_pos rfl]
    exact Option.some_ne_none _
  have kept := congrFun (deletes.2 known).2 shortName
  cases kept

end Services
end Extlib
