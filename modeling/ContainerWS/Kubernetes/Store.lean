import ContainerWS.GoMap
import ContainerWS.GoStrings

/-! The API server as the handlers see it: the objects of one resource by namespace and name.
Whether it takes an update is its own decision. -/
namespace ContainerWS.Kubernetes
open GoStrings

abbrev Store (α : Type) := String → String → Option α

variable {α : Type}

def Store.Get (resource : String) (store : Store α) (namespace_ name : String) : Except String α :=
  match store namespace_ name with
  | some object => .ok object
  | none => .error (resource ++ " \"" ++ name ++ "\" not found")

def Store.put (store : Store α) (namespace_ name : String) (object : α) : Store α :=
  fun ns n => if ns = namespace_ ∧ n = name then some object else store ns n

/- The rules of the server: what it answers to an object in the place of another one. -/
abbrev Admission (α : Type) := α → α → Except String Unit

def Store.Update (admits : Admission α) (store : Store α) (namespace_ name : String) (old new : α) : Except String (Store α) := do
  admits old new
  return store.put namespace_ name new

@[simp] theorem putSame (store : Store α) (namespace_ name : String) (object : α) :
    store.put namespace_ name object namespace_ name = some object := if_pos ⟨rfl,rfl⟩

theorem getOk {resource : String} {store : Store α} {namespace_ name : String} {object : α} :
    store.Get resource namespace_ name = .ok object ↔ store namespace_ name = some object := by
  unfold Store.Get
  cases store namespace_ name <;> simp

end ContainerWS.Kubernetes
