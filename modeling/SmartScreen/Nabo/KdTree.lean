/-
  The search tree of libnabo (`kdtree_cpu.cpp`, `nabo.cpp`): how it is built, and how it
  is searched.

  The tree is a vector of nodes.  A node has one packed number: in the lower bits the
  dimension that it cuts, or for a bucket the number of dimensions; above them the index
  of its right child, or the size of the bucket.  The left child comes right after it.

  * `buildNodes` and `recurseKnn` recurse as the code does; they have `none` where the
    rounds that they are given do not suffice, and `recurseKnn` also where it would read
    something that is not there.
  * The lists of indices are what is between `first` and `last`.
  * The numbers are exact (those of an ordered field); `float` and `double` round.
-/
import SmartScreen.Classifier.DataClassifier
import SmartScreen.Lib.Partition
import SmartScreen.Nabo.IndexHeap

namespace SmartScreen.Nabo

open Heap Partition

variable {T : Type}

/-- `std::numeric_limits<T>` and `boost::numeric::bounds<T>` -/
class NumericLimits (T : Type) where
  max : T
  min : T
  highest : T
  lowest : T
  epsilon : T

/-- The limits of `float`. -/
instance : NumericLimits ℚ where
  max := (2 - 1 / 2 ^ 23) * 2 ^ 127
  min := 1 / 2 ^ 126
  highest := (2 - 1 / 2 ^ 23) * 2 ^ 127
  lowest := -((2 - 1 / 2 ^ 23) * 2 ^ 127)
  epsilon := 1 / 2 ^ 23

inductive NodeValue (T : Type) where
  | cutVal (v : T)
  | bucketIndex (i : ℕ)
deriving DecidableEq

structure Node (T : Type) where
  dimChildBucketSize : ℕ
  value : NodeValue T
deriving DecidableEq

structure BucketEntry (T : Type) where
  /-- the coordinates that the pointer refers to -/
  pt : List T
  index : ℕ
deriving DecidableEq

structure KDTreeUnbalancedPtInLeavesImplicitBoundsStackOpt (T : Type) where
  cloud : Matrix T
  dim : ℕ
  bucketSize : ℕ
  dimBitCount : ℕ
  nodes : List (Node T) := []
  buckets : List (BucketEntry T) := []
deriving DecidableEq

/-- The number of bits of a value. -/
def getStorageBitCount (v : ℕ) : ℕ := go 64 0 v
where
  go : ℕ → ℕ → ℕ → ℕ
    | 0, _, _ => 64
    | n + 1, i, v => if v = 0 then i else go n (i + 1) (v >>> 1)

/-- The index of the maximum of positive values. -/
def argMax [Zero T] [LT T] [DecidableLT T] (v : List T) : ℕ :=
  (v.zipIdx.foldl (fun best x => if best.1 < x.1 then x else best) (0, 0)).2

namespace KDTreeUnbalancedPtInLeavesImplicitBoundsStackOpt

section
variable (t : KDTreeUnbalancedPtInLeavesImplicitBoundsStackOpt T)

/-! ## Packing -/

def dimMask : ℕ := (1 <<< t.dimBitCount) - 1

def createDimChildBucketSize (dim childIndex : ℕ) : ℕ :=
  (dim ||| childIndex <<< t.dimBitCount) % 2 ^ 32

def getDim (dimChildBucketSize : ℕ) : ℕ := dimChildBucketSize &&& t.dimMask

def getChildBucketSize (dimChildBucketSize : ℕ) : ℕ := dimChildBucketSize >>> t.dimBitCount

end

variable [Field T] [LinearOrder T] [NumericLimits T]
  (t : KDTreeUnbalancedPtInLeavesImplicitBoundsStackOpt T)

/-! ## Building -/

/-- `cloud.coeff(dim, index)` -/
def coeff (dim index : ℕ) : T := (t.cloud.columns.getD index []).getD dim 0

def bucketEntry (index : ℕ) : BucketEntry T := ⟨t.cloud.columns.getD index [], index⟩

/-- The least and the largest coordinate of some points. -/
def getBounds (points : List ℕ) (dim : ℕ) : T × T :=
  points.foldl (fun bounds index => (min (t.coeff dim index) bounds.1,
    max (t.coeff dim index) bounds.2)) (NumericLimits.highest, NumericLimits.lowest)

/-- Where to cut some points along `cutDim`: the value, the points after they have been
    moved, and how many of them come to the left. -/
def cutPoints (points : List ℕ) (cutDim : ℕ) (idealCutVal : T) : T × List ℕ × ℕ :=
  let count := points.length
  let minMaxVals := t.getBounds points cutDim
  let cutVal :=
    if idealCutVal < minMaxVals.1 then minMaxVals.1
    else if minMaxVals.2 < idealCutVal then minMaxVals.2
    else idealCutVal
  -- the points below `cutVal`, and then those that are not above it
  let first := partition (fun i => t.coeff cutDim i < cutVal) points 0 0 count
  let br1 := first.2
  let second := partition (fun i => t.coeff cutDim i ≤ cutVal) first.1 br1 br1 count
  let br2 := second.2
  let leftCount :=
    if idealCutVal < minMaxVals.1 then 1
    else if minMaxVals.2 < idealCutVal then count - 1
    else if count / 2 < br1 then br1
    else if br2 < count / 2 then br2
    else count / 2
  (cutVal, second.1, leftCount)

/-- The nodes for some points in a box; the value is the position of the first one. -/
def buildNodes : ℕ → List ℕ → List T → List T →
    KDTreeUnbalancedPtInLeavesImplicitBoundsStackOpt T →
    Option (KDTreeUnbalancedPtInLeavesImplicitBoundsStackOpt T × ℕ)
  | 0, _, _, _, _ => none
  | fuel + 1, points, minValues, maxValues, t =>
    let pos := t.nodes.length
    if points.length ≤ t.bucketSize then
      let node := ⟨t.createDimChildBucketSize t.dim points.length, .bucketIndex t.buckets.length⟩
      some ({ t with
        nodes := t.nodes ++ [node]
        buckets := t.buckets ++ points.map t.bucketEntry }, pos)
    else
      let cutDim := argMax (List.zipWith (· - ·) maxValues minValues)
      let idealCutVal := (maxValues.getD cutDim 0 + minValues.getD cutDim 0) / (2 : ℕ)
      let cut := t.cutPoints points cutDim idealCutVal
      let cutVal := cut.1
      let left := cut.2.1.take cut.2.2
      let right := cut.2.1.drop cut.2.2
      let t := { t with nodes := t.nodes ++ [⟨0, .cutVal cutVal⟩] }
      (buildNodes fuel left minValues (maxValues.set cutDim cutVal) t).bind fun ⟨t, _⟩ =>
        let minValues := minValues.set cutDim cutVal
        (buildNodes fuel right minValues maxValues t).bind fun ⟨t, rightChild⟩ =>
          let write (node : Node T) : Node T :=
            { node with dimChildBucketSize := t.createDimChildBucketSize cutDim rightChild }
          some ({ t with nodes := t.nodes.modify pos write }, pos)

/-- The bounds of all points, along each dimension. -/
def minBound : List T :=
  (List.range t.dim).map fun d =>
    (List.range t.cloud.cols).foldl (fun b i => min b (t.coeff d i)) NumericLimits.max

def maxBound : List T :=
  (List.range t.dim).map fun d =>
    (List.range t.cloud.cols).foldl (fun b i => max b (t.coeff d i)) NumericLimits.min

/-- What the constructors have initialised; `dim` is the number of dimensions that is
    asked for. -/
def start (cloud : Matrix T) (dim bucketSize : ℕ) :
    KDTreeUnbalancedPtInLeavesImplicitBoundsStackOpt T where
  cloud := cloud
  dim := min dim cloud.rows
  bucketSize := bucketSize
  dimBitCount := getStorageBitCount (min dim cloud.rows)

/-- The constructors. -/
def construct (fuel : ℕ) (cloud : Matrix T) (dim bucketSize : ℕ) :
    Option (Except String (KDTreeUnbalancedPtInLeavesImplicitBoundsStackOpt T)) :=
  let t := start cloud dim bucketSize
  if cloud.cols = 0 then some (.error "Cloud has no points")
  else if cloud.rows = 0 then some (.error "Cloud has 0 dimensions")
  else if bucketSize < 2 then
    some (.error s!"Requested bucket size {bucketSize}, but must be larger than 2")
  else if cloud.cols ≤ bucketSize then
    let node := ⟨t.createDimChildBucketSize t.dim cloud.cols, .bucketIndex 0⟩
    some (.ok { t with
      nodes := [node]
      buckets := (List.range cloud.cols).map t.bucketEntry })
  else
    let maxNodeCount := 1 <<< (32 - t.dimBitCount) - 1
    let estimatedNodeCount := cloud.cols / (bucketSize / 2)
    if maxNodeCount < estimatedNodeCount then
      some (.error (s!"Cloud has a risk to have more nodes ({estimatedNodeCount}) than the " ++
        s!"kd-tree allows ({maxNodeCount}). The kd-tree has {t.dimBitCount} bits for dimensions " ++
        s!"and {32 - t.dimBitCount} bits for node indices"))
    else
      (buildNodes fuel (List.range cloud.cols) t.minBound t.maxBound t).map fun ⟨t, _⟩ => .ok t

/-- The number of dimensions is at least 1, and all of the rows if it is left out. -/
def createKDTreeTreeHeap (fuel : ℕ) (cloud : Matrix T) (dim : ℕ := 2 ^ 31 - 1)
    (bucketSize : ℕ := 8) :
    Option (Except String (KDTreeUnbalancedPtInLeavesImplicitBoundsStackOpt T)) :=
  if dim = 0 then some (.error "Your space must have at least one dimension")
  else construct fuel cloud dim bucketSize

/-! ## Searching -/

/-- The square of the distance from the query. -/
def dist2 (query pt : List T) : T :=
  (List.range t.dim).foldl (fun dist i =>
    let diff := query.getD i 0 - pt.getD i 0
    dist + diff * diff) 0

variable (heap : StdHeap (Entry.value : Entry T → WithTop T)) (query : List T)
  (allowSelfMatch : Bool) (maxError2 : T) (maxRadius2 : WithTop T)

/-- One entry of a bucket. -/
def scanEntry (h : IndexHeapSTL T) (entry : BucketEntry T) : IndexHeapSTL T :=
  let dist := t.dist2 query entry.pt
  if dist ≤ maxRadius2 ∧ dist < h.headValue ∧
      (allowSelfMatch = true ∨ (NumericLimits.epsilon : T) < dist) then
    h.replaceHead heap entry.index dist
  else h

/-- The search below the node `n`, whose part of space has the squared distance `rd`;
    `off` is how far it is along each dimension. -/
def recurseKnn : ℕ → ℕ → T → IndexHeapSTL T → List T → Option (IndexHeapSTL T × List T)
  | 0, _, _, _, _ => none
  | fuel + 1, n, rd, h, off =>
    match t.nodes[n]? with
    | none => none
    | some node =>
      let cd := t.getDim node.dimChildBucketSize
      if cd = t.dim then
        match node.value with
        | .bucketIndex bucket =>
          let entries := (t.buckets.drop bucket).take (t.getChildBucketSize node.dimChildBucketSize)
          some (entries.foldl (t.scanEntry heap query allowSelfMatch maxRadius2) h, off)
        | .cutVal _ => none
      else
        match node.value with
        | .bucketIndex _ => none
        | .cutVal cutVal =>
          let rightChild := t.getChildBucketSize node.dimChildBucketSize
          let oldOff := off.getD cd 0
          let newOff := query.getD cd 0 - cutVal
          let near := if 0 < newOff then rightChild else n + 1
          let far := if 0 < newOff then n + 1 else rightChild
          (recurseKnn fuel near rd h off).bind fun ⟨h, off⟩ =>
            let rd := rd + (-oldOff * oldOff + newOff * newOff)
            if rd ≤ maxRadius2 ∧ (rd * maxError2 : T) < h.headValue then
              (recurseKnn fuel far rd h (off.set cd newOff)).map fun ⟨h, off⟩ =>
                (h, off.set cd oldOff)
            else some (h, off)

/-- One column of the query, with what the last one left; the value is what is written
    to its column of `indices` and `dists2`. -/
def onePointKnn (fuel : ℕ) (sortResults : Bool) (h : IndexHeapSTL T) (off : List T) :
    Option (IndexHeapSTL T × List T × (List ℕ × List (WithTop T))) :=
  let off := List.replicate off.length 0
  let h := h.reset
  (t.recurseKnn heap query allowSelfMatch maxError2 maxRadius2 fuel 0 0 h off).map fun ⟨h, off⟩ =>
    let h := if sortResults then h.sort heap else h
    (h, off, h.getData)

/-- `ALLOW_SELF_MATCH` and `SORT_RESULTS` -/
def allowSelfMatchFlag : ℕ := 1
def sortResultsFlag : ℕ := 2

/-- The sizes of `indices` and of `dists2` are their rows and columns. -/
def checkSizesKnn (query : Matrix T) (indices dists2 : ℕ × ℕ) (k optionFlags : ℕ) :
    Except String Unit := do
  if optionFlags &&& allowSelfMatchFlag ≠ 0 then
    if t.cloud.cols < k then
      throw s!"Requesting more points ({k}) than available in cloud ({t.cloud.cols})"
  else if t.cloud.cols - 1 < k then
    throw (s!"Requesting more points ({k}) than available in cloud minus 1 " ++
      s!"({t.cloud.cols - 1}) (as self match is forbidden)")
  if query.rows < t.dim then
    throw s!"Query has less dimensions ({query.rows}) than requested for cloud ({t.dim})"
  if indices.1 ≠ k then
    throw s!"Index matrix has a different number of rows ({indices.1}) than k ({k})"
  if indices.2 ≠ query.cols then
    throw s!"Index matrix has a different number of columns ({indices.1}) than query ({query.cols})"
  if dists2.1 ≠ k then
    throw s!"Distance matrix has a different number of rows ({dists2.1}) than k ({k})"
  if dists2.2 ≠ query.cols then
    throw (s!"Distance matrix has a different number of columns ({dists2.1}) than query " ++
      s!"({query.cols})")
  let maxOptionFlagsValue := allowSelfMatchFlag ||| sortResultsFlag
  if maxOptionFlagsValue < optionFlags then
    throw (s!"OR-ed value of option flags ({optionFlags}) is larger than maximal valid value " ++
      s!"({maxOptionFlagsValue})")

/-- The loop of `knn`: the heap and the offsets are used again for the next column. -/
def knnColumns (fuel : ℕ) (sortResults : Bool) :
    List (List T) → IndexHeapSTL T → List T → Option (List (List ℕ × List (WithTop T)))
  | [], _, _ => some []
  | query :: queries, h, off =>
    (t.onePointKnn heap query allowSelfMatch maxError2 maxRadius2 fuel sortResults h off).bind
      fun ⟨h, off, column⟩ => (knnColumns fuel sortResults queries h off).map (column :: ·)

/-- `knn` with a matrix: the columns of `indices` and of `dists2`. -/
def knn (fuel : ℕ) (query : Matrix T) (indices dists2 : ℕ × ℕ) (k : ℕ) (epsilon : T)
    (optionFlags : ℕ) (maxRadius : WithTop T) :
    Option (Except String (List (List ℕ × List (WithTop T)))) :=
  match t.checkSizesKnn query indices dists2 k optionFlags with
  | .error e => some (.error e)
  | .ok _ =>
    let allowSelfMatch := decide (optionFlags &&& allowSelfMatchFlag ≠ 0)
    let sortResults := decide (optionFlags &&& sortResultsFlag ≠ 0)
    let maxRadius2 := maxRadius.map fun radius => radius * radius
    let maxError2 := (1 + epsilon) * (1 + epsilon)
    (t.knnColumns heap allowSelfMatch maxError2 maxRadius2 fuel sortResults query.columns
      { nbNeighbours := k } (List.replicate t.dim 0)).map .ok

/-- `knn` with a vector: its first coefficients are the only column. -/
def knnVector (fuel : ℕ) (query : List T) (k : ℕ) (epsilon : T := 0) (optionFlags : ℕ := 0)
    (maxRadius : WithTop T := ⊤) : Option (Except String (List ℕ × List (WithTop T))) :=
  if query.length < t.dim then none
  else
    let queryMatrix := ⟨t.dim, [query.take t.dim]⟩
    (t.knn heap fuel queryMatrix (k, 1) (k, 1) k epsilon optionFlags maxRadius).map fun columns =>
      columns.map fun columns => columns.headD ([], [])

end KDTreeUnbalancedPtInLeavesImplicitBoundsStackOpt

end SmartScreen.Nabo
