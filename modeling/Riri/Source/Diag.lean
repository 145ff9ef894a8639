import Mathlib

/-!
# Diagnostics

Source: src/diag.rs, with the names of the collectives from src/warp.rs and src/oxide.rs.
A `&'static Location` is compared by value in the source, so it is a plain record here.
Member masks are the source's `u32`. Display texts are not modeled: nothing reads them back.
-/
namespace Riri

/-- `std::panic::Location`; the derived source order is lexicographic. -/
structure Location where
  file : String
  line : Nat
  column : Nat
  deriving DecidableEq, Repr

namespace Location

/-- `PartialOrd` of `Location`: file, then line, then column. -/
def le (a b : Location) : Bool :=
  if a.file = b.file then
    if a.line = b.line then a.column ≤ b.column else a.line < b.line
  else a.file < b.file

/-- `{file}:{line}`, the part of a location a fingerprint keeps. -/
def at_ (loc : Location) : String := s!"{loc.file}:{loc.line}"

end Location

abbrev Mask := BitVec 32

/-- `mask & (1u32 << lane) != 0`. -/
def Mask.names (mask : Mask) (lane : Nat) : Bool := mask &&& (1#32 <<< lane) != 0

theorem Mask.names_iff (mask : Mask) {lane : Nat} (h : lane < 32) :
    mask.names lane = mask.getLsbD lane := by
  have nonzero : BitVec.twoPow 32 lane ≠ 0#32 := by
    intro hz
    have bit := congrArg (fun b : BitVec 32 => b.getLsbD lane) hz
    simp [h] at bit
  change (mask &&& BitVec.twoPow 32 lane != 0) = _
  rw [BitVec.and_twoPow]
  cases mask.getLsbD lane <;> simp [nonzero]

/-- Masks agree as soon as they name the same lanes. -/
theorem Mask.ext_names {a b : Mask} (h : ∀ lane < 32, a.names lane = b.names lane) : a = b := by
  apply BitVec.eq_of_getLsbD_eq
  intro lane hlane
  rw [← Mask.names_iff a hlane, ← Mask.names_iff b hlane]
  exact h lane hlane

/-- Names the source passes as `op: &'static str`. -/
inductive WarpOp where
  | shflSync | shflUpSync | shflDownSync | shflXorSync
  | ballotSync | anySync | allSync | syncWarp
  | oxideAll | oxideAny | oxideBallot
  deriving DecidableEq, Repr

def WarpOp.name : WarpOp → String
  | .shflSync => "shfl_sync"
  | .shflUpSync => "shfl_up_sync"
  | .shflDownSync => "shfl_down_sync"
  | .shflXorSync => "shfl_xor_sync"
  | .ballotSync => "ballot_sync"
  | .anySync => "any_sync"
  | .allSync => "all_sync"
  | .syncWarp => "sync_warp"
  | .oxideAll => "all"
  | .oxideAny => "any"
  | .oxideBallot => "ballot"

inductive AccessKind where
  | read | write | atomic
  deriving DecidableEq, Repr

/-- One recorded memory access. -/
structure Access where
  block : Nat
  thread : Nat
  epoch : Nat
  warp : Nat
  warpEpoch : Nat
  seq : Nat
  kind : AccessKind
  location : Location
  deriving DecidableEq, Repr

inductive MemSpace where
  | global (buffer : String)
  | shared (block : Nat) (name : String)
  deriving DecidableEq, Repr

inductive LaneProblem where
  | callerNotInMask
  | maskOutsideBlock (valid : Mask)
  | sourceLaneNotInMask (src : Nat)
  deriving DecidableEq, Repr

inductive Diagnostic where
  | dataRace (space : MemSpace) (index : Nat) (first second : Access)
  | uninitRead (space : MemSpace) (index : Nat) (access : Access)
  | outOfBounds (space : MemSpace) (index len : Nat) (access : Access)
  | barrierDivergence (block waiting exited : Nat) (barrier : Location)
  | warpDivergence (block warp : Nat) (op : WarpOp) (mask arrived : Mask) (loc : Location)
  | warpMaskMismatch (block warp : Nat) (op : WarpOp) (loc : Location)
      (lane : Nat) (mask : Mask) (otherLane : Nat) (otherMask : Mask)
  | warpLaneError (block warp : Nat) (op : WarpOp) (loc : Location)
      (lane : Nat) (mask : Mask) (problem : LaneProblem)
  | kernelPanic (block thread : Nat) (message : String)
  deriving DecidableEq, Repr

def MAX_DIAGNOSTICS : Nat := 64

/-- `Location::caller()` in `Reporter::push`, which is not `#[track_caller]`:
a fixed line of Riri itself. -/
def pushCaller : Location := ⟨"src/diag.rs", 429, 45⟩

/-- What the reporter compares two findings by: a kind, and one or two locations. -/
abbrev DedupKey := String × Location × Option Location

/-- `{problem:?}`, the derived debug text of a lane problem. -/
def LaneProblem.debug : LaneProblem → String
  | .callerNotInMask => "CallerNotInMask"
  | .maskOutsideBlock valid => s!"MaskOutsideBlock \x7b valid: {valid.toNat} \x7d"
  | .sourceLaneNotInMask src => s!"SourceLaneNotInMask \x7b src: {src} \x7d"

def Diagnostic.dedupKey : Diagnostic → DedupKey
  | .dataRace _ _ first second =>
      if first.location.le second.location then ("race", first.location, some second.location)
      else ("race", second.location, some first.location)
  | .uninitRead _ _ access => ("uninit", access.location, none)
  | .outOfBounds _ _ _ access => ("oob", access.location, none)
  | .barrierDivergence block _ _ barrier => (s!"barrier{block}", barrier, none)
  | .warpDivergence block warp _ _ _ loc => (s!"warpdiv{block}:{warp}", loc, none)
  | .warpMaskMismatch block warp _ loc _ _ _ _ => (s!"warpmask{block}:{warp}", loc, none)
  | .warpLaneError _ _ _ loc _ _ problem => (s!"warplane{problem.debug}", loc, none)
  | .kernelPanic _ _ message => (s!"panic:{message}", pushCaller, none)

/-- `LaneProblem::kind`. -/
def LaneProblem.kind : LaneProblem → String
  | .callerNotInMask => "caller-not-in-mask"
  | .maskOutsideBlock _ => "mask-outside-block"
  | .sourceLaneNotInMask _ => "source-lane-not-in-mask"

/-- The kind of a finding and where it is in the source, whoever hit it. -/
def Diagnostic.fingerprint : Diagnostic → String
  | .dataRace _ _ first second =>
      if first.location.le second.location then
        s!"race@{first.location.at_}~{second.location.at_}"
      else s!"race@{second.location.at_}~{first.location.at_}"
  | .uninitRead _ _ access => s!"uninit@{access.location.at_}"
  | .outOfBounds _ _ _ access => s!"oob@{access.location.at_}"
  | .barrierDivergence _ _ _ barrier => s!"barrier@{barrier.at_}"
  | .warpDivergence _ _ op _ _ loc => s!"warp-divergence:{op.name}@{loc.at_}"
  | .warpMaskMismatch _ _ op loc _ _ _ _ => s!"warp-mask-mismatch:{op.name}@{loc.at_}"
  | .warpLaneError _ _ op loc _ _ problem =>
      s!"warp-lane-error:{op.name}:{problem.kind}@{loc.at_}"
  | .kernelPanic _ _ message => s!"panic:{message}"

/-- `Report::contains`. -/
def Report.contains (diagnostics : List Diagnostic) (fingerprint : String) : Bool :=
  diagnostics.any fun d => d.fingerprint = fingerprint

/-- `Reporter::inner`: what was kept, and the keys of what was kept. -/
structure Reporter where
  kept : List Diagnostic
  keys : List DedupKey
  deriving DecidableEq, Repr

namespace Reporter

def empty : Reporter := ⟨[], []⟩

/-- At most `MAX_DIAGNOSTICS` are kept, one for each key. -/
def push (r : Reporter) (d : Diagnostic) : Reporter :=
  if r.kept.length < MAX_DIAGNOSTICS ∧ d.dedupKey ∉ r.keys then
    ⟨r.kept ++ [d], d.dedupKey :: r.keys⟩
  else r

/-- The list a report carries after these findings were pushed in this order. -/
def take (raised : List Diagnostic) : List Diagnostic := (raised.foldl push empty).kept

end Reporter

end Riri
