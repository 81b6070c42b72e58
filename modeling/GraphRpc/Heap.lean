import GraphRpc.Value

/-!
# Objects and heaps

The objects of a message live in the slots of one heap, and references between them are slot
numbers. A slot holds a record, the generic kind of object, or an instance of an application type
`α`, together with the name of its type.
-/

namespace GraphRpc

/-- Named fields in the order in which they were first set. -/
structure Record where
  fields : List (String × Value)
  nodup : (fields.map Prod.fst).Nodup

namespace Record

def empty : Record := ⟨[], List.nodup_nil⟩

instance : Inhabited Record := ⟨empty⟩

def setIn (name : String) (v : Value) : List (String × Value) → List (String × Value)
  | [] => [(name, v)]
  | (n, w) :: rest => if n = name then (n, v) :: rest else (n, w) :: setIn name v rest

theorem names_setIn (name : String) (v : Value) (fields : List (String × Value)) :
    (setIn name v fields).map Prod.fst =
      if name ∈ fields.map Prod.fst then fields.map Prod.fst else fields.map Prod.fst ++ [name] := by
  induction fields with
  | nil => simp [setIn]
  | cons field rest ih =>
    obtain ⟨n, w⟩ := field
    by_cases h : n = name
    · simp [setIn, h]
    · have h' : ¬ name = n := fun e => h e.symm
      simp only [setIn, h, if_false, List.map_cons, ih, List.mem_cons, h', false_or]
      split <;> simp

def set (r : Record) (name : String) (v : Value) : Record where
  fields := setIn name v r.fields
  nodup := by
    rw [names_setIn]
    split
    · exact r.nodup
    · next absent =>
      refine List.nodup_append.2 ⟨r.nodup, by simp, ?_⟩
      intro a ha b hb same
      exact absent (List.mem_singleton.1 hb ▸ same ▸ ha)

def get? (r : Record) (name : String) : Option Value := r.fields.lookup name

def names (r : Record) : List String := r.fields.map Prod.fst

def size (r : Record) : Nat := r.fields.length

def isEmpty (r : Record) : Bool := r.fields.isEmpty

/-- The record that results from setting fields one after the other. -/
def ofList (fields : List (String × Value)) : Record :=
  fields.foldl (fun r (name, v) => r.set name v) empty

end Record

inductive Object (α : Type) where
  | record (r : Record)
  | app (x : α)

namespace Object

def record? {α : Type} : Object α → Option Record
  | record r => some r
  | app _ => none

def isRecord {α : Type} (o : Object α) : Bool := o.record?.isSome

end Object

structure Slot (α : Type) where
  typeName : String
  object : Object α

structure Heap (α : Type) where
  slots : Array (Slot α)

namespace Heap

variable {α : Type}

def empty : Heap α := ⟨#[]⟩

instance : Inhabited (Heap α) := ⟨empty⟩

def size (heap : Heap α) : Nat := heap.slots.size

def isEmpty (heap : Heap α) : Bool := heap.slots.isEmpty

def slot? (heap : Heap α) (h : Handle) : Option (Slot α) := heap.slots[h.slot]?

def contains (heap : Heap α) (h : Handle) : Bool := h.slot < heap.size

def typeName? (heap : Heap α) (h : Handle) : Option String := (heap.slot? h).map (·.typeName)

def object? (heap : Heap α) (h : Handle) : Option (Object α) := (heap.slot? h).map (·.object)

def record? (heap : Heap α) (h : Handle) : Option Record := (heap.object? h).bind Object.record?

def insert (heap : Heap α) (typeName : String) (object : Object α) : Handle × Heap α :=
  (Handle.ofSlot heap.size, ⟨heap.slots.push ⟨typeName, object⟩⟩)

def setObject (heap : Heap α) (h : Handle) (object : Object α) : Heap α :=
  ⟨heap.slots.modify h.slot fun slot => { slot with object }⟩

def setField? (heap : Heap α) (h : Handle) (name : String) (v : Value) : Option (Record × Heap α) :=
  (heap.record? h).map fun r => (r.set name v, heap.setObject h (.record (r.set name v)))

end Heap
end GraphRpc
