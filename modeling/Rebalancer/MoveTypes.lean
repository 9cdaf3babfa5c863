import Rebalancer.AssignmentState
import Rebalancer.ShortCircuit

namespace Rebalancer

/-- What the move types read of a problem; `objects` has the order of the object stores. -/
structure SearchSpace where
  objects : List ObjectId
  containers : List ContainerId
  notAcceptingContainers : IdSet
  equivalenceSet : ObjectId → EquivalenceSetId
  isMoveInvalid : ObjectId → ContainerId → Bool

/-- Where the objects are, those that do not count as dynamic, and those that are fixed by now. -/
structure SearchView where
  assignment : Assignment
  notDynamic : IdSet
  fixedObjects : IdSet

/-- The move sets that are evaluated; some loops end when the best result so far is better. -/
inductive Exploration where
  | evaluate (moves : MoveSet)
  | several (untilBetter : Bool) (parts : List Exploration)

namespace Exploration

def nothing : Exploration := several false []

def all (moveSets : List MoveSet) : Exploration := several false (moveSets.map evaluate)

inductive Proposes : Exploration → MoveSet → Prop where
  | evaluate (moves : MoveSet) : Proposes (.evaluate moves) moves
  | several (hpart : part ∈ parts) (h : Proposes part moves) :
      Proposes (.several untilBetter parts) moves

section
variable {ν S C : Type}

mutual

def findBest (evaluator : MovesEvaluator ν) (problem : Problem ν S C) (hash : Move → Nat) (s : S) :
    Exploration → Except String MoveResult
  | .evaluate moves => evaluator.evaluate problem s moves
  | .several untilBetter parts => findBestOf evaluator problem hash s untilBetter parts .makeEmpty

def findBestOf (evaluator : MovesEvaluator ν) (problem : Problem ν S C) (hash : Move → Nat) (s : S)
    (untilBetter : Bool) : List Exploration → MoveResult → Except String MoveResult
  | [], bestResult => .ok bestResult
  | part :: parts, bestResult => do
    let result ← findBest evaluator problem hash s part
    let bestResult ← bestResult.aggregate hash result
    let better ← bestResult.isBetter problem.precision
    if untilBetter && better then .ok bestResult
    else findBestOf evaluator problem hash s untilBetter parts bestResult

end

end

end Exploration

def dedupBy [DecidableEq κ] (key : α → κ) : List κ → List α → List α
  | _, [] => []
  | lookup, x :: xs =>
    if key x ∈ lookup then dedupBy key lookup xs else x :: dedupBy key (key x :: lookup) xs

namespace Partition

def getOnlyGroupIdIfExists (p : Partition) (objectId : ObjectId) : Except String (Option GroupId) :=
  match p.objectIdToGroupIds objectId with
  | [] => .ok none
  | [groupId] => .ok (some groupId)
  | _ => .error "Unhandled case when an object belongs to multiple groups"

end Partition

namespace SearchSpace

section
variable (space : SearchSpace)

def getDynamicObjects (v : SearchView) (c : ContainerId) : List ObjectId :=
  space.objects.filter fun o => v.assignment o = c ∧ o ∉ v.notDynamic

def distinctObjects (objects : List ObjectId) : List ObjectId :=
  dedupBy space.equivalenceSet [] objects

def groupObjectsByEquivalenceSet (objects : List ObjectId) : List (List ObjectId) :=
  (space.distinctObjects objects).map fun first =>
    objects.filter fun o => space.equivalenceSet o = space.equivalenceSet first

def anyMoveInvalid (bundle : List ObjectId) (c : ContainerId) : Bool :=
  bundle.any fun o => space.isMoveInvalid o c

def accepts (hotContainer container : ContainerId) : Bool :=
  decide (container ≠ hotContainer) && decide (container ∉ space.notAcceptingContainers)

def acceptingContainers (hotContainer : ContainerId)
    (customColdContainers : Option (List ContainerId)) : List ContainerId :=
  (customColdContainers.getD space.containers).filter (space.accepts hotContainer)

end

end SearchSpace

namespace SearchView

def attemptMoveWithThisObject (v : SearchView) (objectId : ObjectId) : Bool :=
  decide (objectId ∉ v.fixedObjects)

end SearchView

def exploreHotObjects (space : SearchSpace) (v : SearchView) (hotContainer : ContainerId)
    (attempt : ObjectId → Bool) (customColdContainers : Option (List ContainerId))
    (explore : ObjectId → ContainerId → Except String Exploration) : Except String Exploration := do
  let hotObjects := (space.distinctObjects (space.getDynamicObjects v hotContainer)).filter attempt
  let coldContainers := space.acceptingContainers hotContainer customColdContainers
  let parts ← (hotObjects.product coldContainers).mapM fun pair => explore pair.1 pair.2
  .ok (.several false parts)

namespace SingleMoveType

def exploreFromAllSingleMoves (space : SearchSpace) (hotContainer : ContainerId)
    (hotObject : ObjectId) (coldContainer : ContainerId) : Exploration :=
  if space.isMoveInvalid hotObject coldContainer then .nothing
  else .evaluate [⟨hotObject, hotContainer, coldContainer⟩]

def explore (space : SearchSpace) (v : SearchView) (hotContainer : ContainerId) :
    Except String Exploration :=
  exploreHotObjects space v hotContainer v.attemptMoveWithThisObject none fun hotObject cold =>
    .ok (exploreFromAllSingleMoves space hotContainer hotObject cold)

end SingleMoveType

structure SingleChainMoveType where
  partitionToExploreChainsWithinObjectGroup : Option Partition
  specialColdContainer : Option ContainerId

namespace SingleChainMoveType

def generateMoveSet (hotObject : ObjectId) (hotContainer coldContainer : ContainerId)
    (otherObject : ObjectId) (otherContainer : ContainerId) : MoveSet :=
  [⟨otherObject, otherContainer, hotContainer⟩, ⟨hotObject, hotContainer, coldContainer⟩]

section
variable (space : SearchSpace) (v : SearchView)

def otherObjects (hotContainer otherContainer : ContainerId) : List ObjectId :=
  (space.distinctObjects (space.getDynamicObjects v otherContainer)).filter fun otherObject =>
    !space.isMoveInvalid otherObject hotContainer

def otherObjectsInGroup (partition : Partition)
    (hotObject : ObjectId) (hotContainer otherContainer : ContainerId) :
    Except String (List ObjectId) := do
  match ← partition.getOnlyGroupIdIfExists hotObject with
  | none => .ok []
  | some groupId =>
    .ok (space.distinctObjects ((partition.getObjectIds groupId).filter fun object =>
      v.assignment object = otherContainer ∧ space.isMoveInvalid object hotContainer = false))

end

variable (t : SingleChainMoveType) (space : SearchSpace) (v : SearchView)
  (hotContainer : ContainerId)

variable (hotObject : ObjectId)

def othersToExplore (otherContainer : ContainerId) : Except String (List ObjectId) :=
  match t.partitionToExploreChainsWithinObjectGroup with
  | none => .ok (otherObjects space v hotContainer otherContainer)
  | some partition => otherObjectsInGroup space v partition hotObject hotContainer otherContainer

def exploreOther (coldContainer otherContainer : ContainerId) : Except String Exploration := do
  let others ← t.othersToExplore space v hotContainer hotObject otherContainer
  .ok (.all (others.map fun otherObject =>
    generateMoveSet hotObject hotContainer coldContainer otherObject otherContainer))

def exploreFromAllSingleMoves (coldContainer : ContainerId) : Except String Exploration :=
  if space.isMoveInvalid hotObject coldContainer then .ok .nothing
  else do
    let parts ← (space.containers.filter fun other =>
      other ≠ hotContainer ∧ other ≠ coldContainer).mapM fun other =>
        t.exploreOther space v hotContainer hotObject coldContainer other
    .ok (.several false parts)

def explore : Except String Exploration :=
  exploreHotObjects space v hotContainer v.attemptMoveWithThisObject
    (t.specialColdContainer.map fun c => [c]) (t.exploreFromAllSingleMoves space v hotContainer)

end SingleChainMoveType

/-- `sample` is what `getEqualSizeRandomSamplesFromEachSetIn` draws from some sets. -/
structure BundleOptions where
  partition : Partition
  bundleSize : Nat
  sample : List (List ObjectId) → List ObjectId
  sample_mem : ∀ sets, ∀ o ∈ sample sets, ∃ objects ∈ sets, o ∈ objects

namespace BundleOptions

def homogenousBundles (options : BundleOptions) (objectsInEquivSet : List ObjectId) :
    List (List ObjectId) :=
  if options.bundleSize ≤ objectsInEquivSet.length then [objectsInEquivSet.take options.bundleSize]
  else []

def bundlesOf (options : BundleOptions) (heterogenous : Bool) :
    List (List ObjectId) → List (List ObjectId) → List (List ObjectId)
  | [], _ => []
  | objectsInEquivSet :: rest, slidingWindow =>
    if heterogenous = false then
      options.homogenousBundles objectsInEquivSet ++
        options.bundlesOf heterogenous rest slidingWindow
    else if slidingWindow.length + 1 = options.bundleSize ∨ rest = [] then
      options.homogenousBundles objectsInEquivSet ++
        options.sample (slidingWindow ++ [objectsInEquivSet]) ::
          options.bundlesOf heterogenous rest (slidingWindow ++ [objectsInEquivSet]).tail
    else
      options.homogenousBundles objectsInEquivSet ++
        options.bundlesOf heterogenous rest (slidingWindow ++ [objectsInEquivSet])

def groupToObjects (options : BundleOptions) (space : SearchSpace) (v : SearchView)
    (srcContainer : ContainerId) : Except String (List (List ObjectId)) := do
  let index ← (space.objects.filter fun o => o ∉ v.notDynamic).mapM fun o => do
    let groupId ← AssignmentState.getGroupIdx options.partition o
    .ok (groupId, o)
  let entries := index.filter fun entry => v.assignment entry.2 = srcContainer
  .ok ((dedupBy id [] (entries.map Prod.fst)).map fun groupId =>
    (entries.filter fun entry => entry.1 = groupId).map Prod.snd)

def getObjectBundlesToExplore (options : BundleOptions) (space : SearchSpace) (v : SearchView)
    (srcContainer : ContainerId) : Except String (List (List ObjectId)) :=
  if options.bundleSize < 1 then
    .error s!"getObjectBundlesToExplore called with bundleSize: {options.bundleSize}"
  else do
    let groups ← options.groupToObjects space v srcContainer
    .ok (groups.flatMap fun objectsInGroup =>
      if objectsInGroup.length < options.bundleSize then []
      else
        let sets := space.groupObjectsByEquivalenceSet objectsInGroup
        options.bundlesOf (decide (1 < sets.length)) sets [])

end BundleOptions

/-- `sampled` says which objects and `sampledCandidate` which bundles the sampling keeps. -/
structure SwapMoveType where
  partitionToExploreSwapsWithinObjectGroup : Option Partition
  swapRatioDimension : Option (ContainerId → ObjectId → ℚ)
  enableKToOneSwaps : Bool
  greedyOnSrc : Bool
  greedyOnDst : Bool
  customColdContainers : Option (ContainerId → List ContainerId)
  sampled : ObjectId → Bool
  bundleOptions : ContainerId → Option BundleOptions
  sampledCandidate : List ObjectId → List ObjectId → Bool

namespace SwapMoveType

def calculateSwapRatio (value : ObjectId → ℚ) (largerObject smallerObject : ObjectId) : Nat :=
  if 0 < value smallerObject ∧ value smallerObject < value largerObject then
    (value largerObject / value smallerObject).ceil.toNat
  else 1

section
variable (enableKToOneSwaps : Bool) (value : ObjectId → ℚ)

def getBundleSizes (hotObject coldObject : ObjectId) : Nat × Nat :=
  if value coldObject < value hotObject ∧ 0 < value coldObject then
    (1, calculateSwapRatio value hotObject coldObject)
  else if value hotObject < value coldObject ∧ 0 < value hotObject then
    if enableKToOneSwaps then (calculateSwapRatio value coldObject hotObject, 1) else (1, 1)
  else (1, 1)

def buildAnchoredBundle (candidateObjects : List ObjectId) (anchorObject : ObjectId)
    (bundleSize : Nat) : Except String (List ObjectId) :=
  if bundleSize = 0 then
    .error s!"Cannot build a zero-sized bundle anchored at object {anchorObject}"
  else if candidateObjects.length < bundleSize then
    .error (s!"Cannot build bundle of size {bundleSize} anchored at object {anchorObject} " ++
      s!"from only {candidateObjects.length} candidates")
  else if anchorObject ∉ candidateObjects then
    .error s!"Anchor object {anchorObject} is not present in the candidate bundle"
  else
    let others := candidateObjects.filter (· ≠ anchorObject)
    if others.length < bundleSize - 1 then
      .error s!"Failed to build bundle of size {bundleSize} anchored at object {anchorObject}"
    else .ok (anchorObject :: others.take (bundleSize - 1))

def coldBundle (hotObjects : List ObjectId)
    (hotObject : ObjectId) (coldObjectsInEquivSet : List ObjectId) :
    Except String (Option (Nat × List ObjectId)) :=
  match coldObjectsInEquivSet with
  | [] => .ok none
  | coldObject :: _ =>
    let (hotBundleSize, coldBundleSize) :=
      getBundleSizes enableKToOneSwaps value hotObject coldObject
    if hotBundleSize ≠ 1 ∧ coldBundleSize ≠ 1 then .error "Expect either 1:k or k:1 bundles"
    else if hotObjects.length < hotBundleSize ∨ coldObjectsInEquivSet.length < coldBundleSize then
      .ok none
    else do
      let bundle ← buildAnchoredBundle coldObjectsInEquivSet coldObject coldBundleSize
      .ok (some (hotBundleSize, bundle))

end

def generateDimensionBasedSwapCandidates (space : SearchSpace) (enableKToOneSwaps : Bool)
    (value : Option (ObjectId → ℚ)) (hotObjects : List ObjectId) (hotObject : ObjectId)
    (coldDynamicObjects : List ObjectId) :
    Except String (List (List ObjectId × List (List ObjectId))) :=
  let coldObjectsByEquivalenceSet := space.groupObjectsByEquivalenceSet coldDynamicObjects
  match value with
  | none => .ok [([hotObject], coldObjectsByEquivalenceSet.map (·.take 1))]
  | some value => do
    let coldBundles ← coldObjectsByEquivalenceSet.mapM
      (coldBundle enableKToOneSwaps value hotObjects hotObject)
    let coldBundles := coldBundles.filterMap id
    (dedupBy id [] (coldBundles.map Prod.fst)).mapM fun hotBundleSize => do
      let hotBundle ← buildAnchoredBundle hotObjects hotObject hotBundleSize
      .ok (hotBundle, (coldBundles.filter fun entry => entry.1 = hotBundleSize).map Prod.snd)

def attemptMoveWithThisObject (t : SwapMoveType) (v : SearchView) (objectId : ObjectId) : Bool :=
  v.attemptMoveWithThisObject objectId && t.sampled objectId

section
variable (t : SwapMoveType)

def shouldTryColdObjectBundle (v : SearchView) (bundle : List ObjectId) : Bool :=
  match bundle with
  | [] => false
  | representativeObj :: _ => t.attemptMoveWithThisObject v representativeObj

def swapMoves (hotContainer coldContainer : ContainerId)
    (candidate : List ObjectId × List ObjectId) :
    MoveSet :=
  (candidate.1.map fun hotObj => ⟨hotObj, hotContainer, coldContainer⟩) ++
    candidate.2.map fun coldObj => ⟨coldObj, coldContainer, hotContainer⟩

section
variable (space : SearchSpace)

def shouldKeepCandidate (hotContainer coldContainer : ContainerId)
    (candidate : List ObjectId × List ObjectId) : Bool :=
  !space.anyMoveInvalid candidate.1 coldContainer && !space.anyMoveInvalid candidate.2 hotContainer

section
variable (v : SearchView)

def coldObjects (hotObject : ObjectId)
    (coldContainer : ContainerId) : Except String (Option (List ObjectId)) :=
  match t.partitionToExploreSwapsWithinObjectGroup with
  | none => .ok (some (space.getDynamicObjects v coldContainer))
  | some partition => do
    match ← partition.getOnlyGroupIdIfExists hotObject with
    | none => .ok none
    | some groupId =>
      .ok (some ((partition.getObjectIds groupId).filter fun object =>
        v.assignment object = coldContainer ∧ object ∉ v.fixedObjects))

section
variable (hotContainer : ContainerId)
include hotContainer

def hotObjectsInEquivSet (hotObject : ObjectId) : Except String (List ObjectId) :=
  let hotObjects := (space.getDynamicObjects v hotContainer).filter fun o =>
    space.equivalenceSet o = space.equivalenceSet hotObject
  if t.swapRatioDimension.isSome ∧ hotObjects = [] then
    .error (s!"Hot object {hotObject} is missing from dynamic equivalence set " ++
      s!"{space.equivalenceSet hotObject} in container {hotContainer}")
  else .ok hotObjects

/-- `exploreSwappingHotObjectWithObjectsInColdContainer`. -/
def exploreColdContainer (hotObject : ObjectId) (coldContainer : ContainerId) :
    Except String Exploration := do
  match ← t.coldObjects space v hotObject coldContainer with
  | none => .ok .nothing
  | some dynamicObjects => do
    let hotObjects ← t.hotObjectsInEquivSet space v hotContainer hotObject
    let implicitCandidates ← generateDimensionBasedSwapCandidates space t.enableKToOneSwaps
      (t.swapRatioDimension.map fun dimension => dimension hotContainer) hotObjects hotObject
      dynamicObjects
    let candidates := implicitCandidates.flatMap fun implicit =>
      (implicit.2.filter (t.shouldTryColdObjectBundle v)).map fun cold => (implicit.1, cold)
    .ok (.several t.greedyOnDst
      ((candidates.filter (shouldKeepCandidate space hotContainer coldContainer)).map
        fun candidate => .evaluate (swapMoves hotContainer coldContainer candidate)))

/-- `findBestMoveWithBundleOptions`. -/
def exploreBundles (options : BundleOptions) : Except String Exploration := do
  let coldContainers := space.acceptingContainers hotContainer
    (t.customColdContainers.map fun custom => custom hotContainer)
  let parts ← coldContainers.mapM fun coldContainer => do
    let srcBundles ← options.getObjectBundlesToExplore space v hotContainer
    let dstBundles ← options.getObjectBundlesToExplore space v coldContainer
    let candidates := (srcBundles.product dstBundles).filter fun candidate =>
      t.sampledCandidate candidate.1 candidate.2 &&
        shouldKeepCandidate space hotContainer coldContainer candidate
    .ok (.all (candidates.map (swapMoves hotContainer coldContainer)))
  .ok (.several false parts)

def exploreGreedyOnSrc : Except String Exploration := do
  let hotObjects := (space.distinctObjects (space.getDynamicObjects v hotContainer)).filter
    (t.attemptMoveWithThisObject v)
  let coldContainers := space.acceptingContainers hotContainer
    (t.customColdContainers.map fun custom => custom hotContainer)
  let parts ← hotObjects.mapM fun hotObject => do
    let explored ← coldContainers.mapM (t.exploreColdContainer space v hotContainer hotObject)
    .ok (.several false explored)
  .ok (.several true parts)

def explore : Except String Exploration :=
  match t.bundleOptions hotContainer with
  | some options => t.exploreBundles space v hotContainer options
  | none =>
    if t.greedyOnSrc then t.exploreGreedyOnSrc space v hotContainer
    else
      exploreHotObjects space v hotContainer (t.attemptMoveWithThisObject v)
        (t.customColdContainers.map fun custom => custom hotContainer)
        (t.exploreColdContainer space v hotContainer)

end

end

end

end

end SwapMoveType

/-- `picks` are the random choices of a scope and of distinct positions in it, one for each
iteration. -/
structure SwapNMoveType where
  swapNConcurrentObjects : Nat
  sourceObjectIds : List ObjectId
  swapNDestinationScope : List (List ContainerId)
  picks : List (Nat × List Nat)

namespace SwapNMoveType

section
variable (t : SwapNMoveType) (space : SearchSpace)

variable (v : SearchView)

variable (hotContainer : ContainerId)

def objectIdsToMove : List ObjectId :=
  ((space.getDynamicObjects v hotContainer).filter (· ∈ t.sourceObjectIds)).take
    t.swapNConcurrentObjects

section
variable (toMove : List ObjectId) (containerId : ContainerId)

def isInvalidDestination (destinationObjectId : ObjectId) : Bool :=
  space.isMoveInvalid destinationObjectId hotContainer || (decide (t.swapNConcurrentObjects = 1) &&
      toMove.head?.any fun object => space.isMoveInvalid object containerId)

def isDestination : Bool :=
  match space.getDynamicObjects v containerId with
  | [] => false
  | first :: _ => !t.isInvalidDestination space hotContainer toMove containerId first

end

def destinationScopeIds (toMove : List ObjectId) : List (List ContainerId) :=
  (t.swapNDestinationScope.map fun destinationScope =>
    destinationScope.filter (t.isDestination space v hotContainer toMove)).filter
      fun containerIds => decide (t.swapNConcurrentObjects ≤ containerIds.length)

end

section
variable (space : SearchSpace) (v : SearchView)

def destinationObjectIds (destinations : List (List ContainerId))
    (pick : Nat × List Nat) : Except String (List ObjectId) :=
  match destinations[pick.1]? with
  | none => .error outOfRange
  | some containerIds =>
    pick.2.mapM fun index =>
      match containerIds[index]? with
      | none => .error outOfRange
      | some containerId =>
        match space.getDynamicObjects v containerId with
        | [] => .error outOfRange
        | first :: _ => .ok first

def generate (toMove destinationObjects : List ObjectId) : MoveSet :=
  let pairs := toMove.zip destinationObjects
  if pairs.any fun pair => space.isMoveInvalid pair.1 (v.assignment pair.2) then []
  else
    pairs.flatMap fun pair =>
      [⟨pair.1, v.assignment pair.1, v.assignment pair.2⟩,
        ⟨pair.2, v.assignment pair.2, v.assignment pair.1⟩]

end

def explore (t : SwapNMoveType) (space : SearchSpace) (v : SearchView)
    (hotContainer : ContainerId) :
    Except String Exploration :=
  let toMove := t.objectIdsToMove space v hotContainer
  let destinations := t.destinationScopeIds space v hotContainer toMove
  if toMove.length < t.swapNConcurrentObjects ∨ destinations = [] then .ok .nothing
  else do
    let moveSets ← t.picks.mapM fun pick => do
      let destinationObjects ← destinationObjectIds space v destinations pick
      .ok (generate space v toMove destinationObjects)
    .ok (.all (moveSets.filter fun moves => !moves.isEmpty))

end SwapNMoveType

/-- `violatesPruning` asks the pruning constraints, and `shuffles` are the random orders of
containers. -/
structure GreedyGroupToScopeItemMoveType where
  partition : Partition
  destinationsToExplore : ContainerId → ObjectId → Except String (List (List ContainerId))
  violatesPruning : Assignment → ObjectId → ContainerId → Bool
  shuffles : List ContainerId → List (List ContainerId)

namespace GreedyGroupToScopeItemMoveType

def generateRandomSampleAndMoveSet (space : SearchSpace) (v : SearchView)
    (groupObjectIds : List ObjectId) (containers : List ContainerId) : MoveSet :=
  let pairs := groupObjectIds.zip containers
  if pairs.any fun pair =>
      decide (v.assignment pair.1 ≠ pair.2) && space.isMoveInvalid pair.1 pair.2 then []
  else pairs.map fun pair => ⟨pair.1, v.assignment pair.1, pair.2⟩

section
variable (t : GreedyGroupToScopeItemMoveType) (space : SearchSpace) (v : SearchView)
  (groupObjectIds : List ObjectId)

def sampleContainersAndEvaluate (containers : List ContainerId) : Exploration :=
  let feasible := containers.filter fun c =>
    !groupObjectIds.head?.any fun front => t.violatesPruning v.assignment front c
  if containers.length < groupObjectIds.length ∨
      feasible.length < groupObjectIds.length then .nothing
  else
    .all (((t.shuffles feasible).map
      (generateRandomSampleAndMoveSet space v groupObjectIds)).filter fun moves => !moves.isEmpty)

def exploreMovingGroup (destinations : List (List ContainerId)) : Exploration :=
  .several false (destinations.map (t.sampleContainersAndEvaluate space v groupObjectIds))

end

def exploreHotObjects (t : GreedyGroupToScopeItemMoveType) (space : SearchSpace) (v : SearchView)
    (hotContainer : ContainerId) :
    List ObjectId → List GroupId → Except String (List Exploration)
  | [], _ => .ok []
  | hotObjectId :: hotObjectIds, seenGroupIds => do
    match ← t.partition.getOnlyGroupIdIfExists hotObjectId with
    | none => t.exploreHotObjects space v hotContainer hotObjectIds seenGroupIds
    | some groupId =>
      if groupId ∈ seenGroupIds then
        t.exploreHotObjects space v hotContainer hotObjectIds seenGroupIds
      else do
        let destinations ← t.destinationsToExplore hotContainer hotObjectId
        let rest ← t.exploreHotObjects space v hotContainer hotObjectIds (groupId :: seenGroupIds)
        .ok (t.exploreMovingGroup space v (t.partition.getObjectIds groupId) destinations :: rest)

def explore (t : GreedyGroupToScopeItemMoveType) (space : SearchSpace) (v : SearchView)
    (hotContainer : ContainerId) : Except String Exploration := do
  let parts ← t.exploreHotObjects space v hotContainer (space.getDynamicObjects v hotContainer) []
  .ok (.several true parts)

end GreedyGroupToScopeItemMoveType

structure RelatedGroups where
  relatedGroups : List GroupId
  destinationScopeItemIds : Option (List ScopeItemId)

/-- The scope is given by its containers; `sample` is what is drawn of the destinations of a group.
-/
structure ColocateGroupsMoveType where
  partition : Partition
  colocationScope : AssocMap ScopeItemId (List ContainerId)
  groupIdToRelatedGroups : AssocMap GroupId RelatedGroups
  colocationScopeItemToGroupToContainers : ScopeItemId → GroupId → Option (List ContainerId)
  sample : List ContainerId → List ContainerId

namespace ColocateGroupsMoveType

section
variable (t : ColocateGroupsMoveType)

def getScopeItemId (container : ContainerId) : Option ScopeItemId :=
  (t.colocationScope.entries.find? fun entry => container ∈ entry.2).map Sigma.fst

def getContainerIds (scopeItemId : ScopeItemId) : List ContainerId :=
  AssocMap.getD t.colocationScope scopeItemId []

def getValidDestinations (space : SearchSpace) (v : SearchView) (candidates : List ContainerId)
    (object : ObjectId) : List ContainerId :=
  candidates.filter fun containerId =>
    containerId ∉ space.notAcceptingContainers ∧ containerId ≠ v.assignment object ∧
      space.isMoveInvalid object containerId = false

def getRepresentativeObjectFromSourceScopeItem (v : SearchView)
    (sourceContainers : List ContainerId) (groupId : GroupId) : Option ObjectId :=
  (t.partition.getObjectIds groupId).find? fun repObject =>
    v.assignment repObject ∈ sourceContainers

end

def getRepresentativeObjectPerGroup (t : ColocateGroupsMoveType) (v : SearchView)
    (hotObjectGroupId : GroupId) (hotObjectId : ObjectId) (sourceContainers : List ContainerId) :
    List GroupId → List ObjectId
  | [] => []
  | relatedGroupId :: relatedGroups =>
    match if relatedGroupId = hotObjectGroupId then some hotObjectId
      else t.getRepresentativeObjectFromSourceScopeItem v sourceContainers relatedGroupId with
    | none => []
    | some repObject =>
      repObject :: t.getRepresentativeObjectPerGroup v hotObjectGroupId hotObjectId sourceContainers
        relatedGroups

section
variable (t : ColocateGroupsMoveType)

def destinationContainers (space : SearchSpace) (v : SearchView)
    (destinationScopeItem : ScopeItemId) (group : GroupId) (object : ObjectId) : List ContainerId :=
  t.sample (getValidDestinations space v
    ((t.colocationScopeItemToGroupToContainers destinationScopeItem group).getD
      (t.getContainerIds destinationScopeItem)) object)

def getMoveSetsToDestinationScopeItem (v : SearchView)
    (destinationContainersPerGroup : List (List ContainerId))
    (representativeObjectPerGroup : List ObjectId) : List MoveSet :=
  destinationContainersPerGroup.sections.map fun destinationContainers =>
    (representativeObjectPerGroup.zip destinationContainers).map fun pair =>
      ⟨pair.1, v.assignment pair.1, pair.2⟩

def getMoveSetsForRelatedGroups (space : SearchSpace) (v : SearchView)
    (related : RelatedGroups) (sourceScopeItemId : Option ScopeItemId)
    (representativeObjectPerGroup : List ObjectId) : List MoveSet :=
  ((related.destinationScopeItemIds.getD t.colocationScope.keys).filter fun destinationScopeItem =>
    sourceScopeItemId ≠ some destinationScopeItem).flatMap fun destinationScopeItem =>
      getMoveSetsToDestinationScopeItem v
        ((related.relatedGroups.zip representativeObjectPerGroup).map fun entry =>
          t.destinationContainers space v destinationScopeItem entry.1 entry.2)
        representativeObjectPerGroup

def sourceContainers (hotContainer : ContainerId) : List ContainerId :=
  match t.getScopeItemId hotContainer with
  | some scopeItemId => t.getContainerIds scopeItemId
  | none => [hotContainer]

end

def exploreHotObjects (t : ColocateGroupsMoveType) (space : SearchSpace) (v : SearchView)
    (hotContainer : ContainerId) :
    List ObjectId → List GroupId → Except String (List Exploration)
  | [], _ => .ok []
  | hotObjectId :: hotObjectIds, seenGroupIds => do
    match ← t.partition.getOnlyGroupIdIfExists hotObjectId with
    | none => t.exploreHotObjects space v hotContainer hotObjectIds seenGroupIds
    | some hotObjectGroupId =>
      match t.groupIdToRelatedGroups.lookup hotObjectGroupId with
      | none => t.exploreHotObjects space v hotContainer hotObjectIds seenGroupIds
      | some related =>
        if hotObjectGroupId ∈ seenGroupIds then
          t.exploreHotObjects space v hotContainer hotObjectIds seenGroupIds
        else do
          let representatives := t.getRepresentativeObjectPerGroup v hotObjectGroupId hotObjectId
            (t.sourceContainers hotContainer) related.relatedGroups
          let rest ← t.exploreHotObjects space v hotContainer hotObjectIds
            (related.relatedGroups ++ seenGroupIds)
          if representatives.length ≠ related.relatedGroups.length then .ok rest
          else
            .ok (.all (t.getMoveSetsForRelatedGroups space v related (t.getScopeItemId hotContainer)
              representatives) :: rest)

def explore (t : ColocateGroupsMoveType) (space : SearchSpace) (v : SearchView)
    (hotContainer : ContainerId) : Except String Exploration := do
  let parts ← t.exploreHotObjects space v hotContainer
    (space.distinctObjects (space.getDynamicObjects v hotContainer)) []
  .ok (.several true parts)

end ColocateGroupsMoveType

inductive MoveType where
  | single
  | singleChain (t : SingleChainMoveType)
  | swap (t : SwapMoveType)
  | swapN (t : SwapNMoveType)
  | greedyGroupToScopeItem (t : GreedyGroupToScopeItemMoveType)
  | colocateGroups (t : ColocateGroupsMoveType)

def MoveType.explore (space : SearchSpace) (v : SearchView) (hotContainer : ContainerId) :
    MoveType → Except String Exploration
  | single => SingleMoveType.explore space v hotContainer
  | singleChain t => t.explore space v hotContainer
  | swap t => t.explore space v hotContainer
  | swapN t => t.explore space v hotContainer
  | greedyGroupToScopeItem t => t.explore space v hotContainer
  | colocateGroups t => t.explore space v hotContainer

end Rebalancer
