import BeePhp.World
import BeePhp.Program.Wlp

/-!
# Proofs: access to the state

Rules for the small programs that read and change the connection object.
-/

namespace BeePhp

open Program

theorem getObj_run (w : World) : getObj w = .ok (w.obj, w) := rfl

theorem getObj_wlp {Q : Connection → World → Prop} {w : World} (h : Q w.obj w) : Wlp getObj Q w := by
  rintro a w' ⟨⟩
  exact h

/-! ## The buffer -/

/-- The state with another buffer. -/
def World.withValue (w : World) (value : SmartString) : World :=
  { w with obj := { w.obj with value := value } }

/-- The buffer emptied. -/
def SmartString.cleared (s : SmartString) : SmartString :=
  { s with len := 0, len_le := Nat.zero_le _ : SmartString }.nullify

/-- The state with the buffer emptied. -/
def World.cleared (w : World) : World := w.withValue w.obj.value.cleared

@[simp] theorem World.cleared_len (w : World) : w.cleared.obj.value.len = 0 := rfl

@[simp] theorem World.cleared_stream (w : World) : w.cleared.obj.stream = w.obj.stream := rfl

theorem resetValue_run (w : World) : resetValue w = .ok ((), w.cleared) := by
  have hset : w.obj.value.setLen 0 = .ok { w.obj.value with len := 0, len_le := Nat.zero_le _ } :=
    dif_pos (Nat.zero_le _)
  exact (run_bind (getObj_run w)).trans (run_bind (run_lift hset w))

end BeePhp
