import Riri.Run.Timeline

/-!
# Fixed programs

Kernels whose threads run fixed lists of operations whatever they read, and the launches of
one block in which a recorded schedule of such a program is tried.
-/
namespace Riri

variable {V : Type}

def Kernel.ofLists (ops : Nat → Nat → List (Op V)) : Kernel V :=
  fun block thread answers => (ops block thread).getD answers.length .ret

theorem Kernel.ofLists_cases (ops : Nat → Nat → List (Op V)) (block thread : Nat)
    (answers : List (Resp V)) : Kernel.ofLists ops block thread answers = .ret ∨
      Kernel.ofLists ops block thread answers ∈ ops block thread := by
  unfold Kernel.ofLists
  rw [List.getD_eq_getElem?_getD]
  cases here : (ops block thread)[answers.length]? with
  | none => exact .inl rfl
  | some op => exact .inr (List.mem_of_getElem? here)

/-- One block with warps of 32. -/
def Config.single (threads : Nat) (pos : 0 < threads) (fits : threads ≤ MAX_THREADS) : Config where
  blocks := 1
  threadsPerBlock := threads
  warpSize := 32
  residentBlocks := 1
  blocks_pos := Nat.one_pos
  threads_pos := pos
  lanes_pos := by decide
  lanes_le := by decide
  resident_pos := Nat.one_pos
  resident_le := le_rfl
  total_lt := by
    have small : MAX_THREADS < 2 ^ 32 := by decide
    omega
  fits := by omega

def Config.oneThread : Config := .single 1 Nat.one_pos (by decide)

def Config.twoThreads : Config := .single 2 Nat.two_pos (by decide)

def Config.threeThreads : Config := .single 3 (by decide) (by decide)

def Config.fourThreads : Config := .single 4 (by decide) (by decide)

/-- One block of threads that run these lists under a schedule, over fresh buffers of eight
elements. -/
def trial (config : Config) (ops : Nat → List (Op Nat)) (plan : List UInt32) : Env Nat where
  config := config
  kernel := .ofLists fun _ => ops
  choicesOf := fun _ => .replay plan 0
  id := 1
  mem := fun _ => .uninit 8
  bufferName := fun _ => "data"
  typeTag := fun _ => 0
  fresh := fun _ => by simp [Instrumented.uninit]

/-- A launch whose threads return at once, to be given another kernel or another shape. -/
def idling : Env Nat := trial .oneThread (fun _ => []) []

end Riri
