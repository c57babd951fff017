import QuasiNewton.Fault

/-!
# The operations of a family

The operations whose meaning depends on the family that carries them out: inner and outer products,
norms, copies and conversions. The lenient family takes its operands from anywhere, the strict family
only from itself.
-/

set_option autoImplicit false

namespace QuasiNewton.Family

variable {α : Type}

/-- The family that computes with a point: the strict one for strict arrays, which must hold numbers,
and the lenient one for all else. -/
def ofTensor (t : Tensor α) : Except (Fault α) Family :=
  if t.family? = some .strict then
    if t.entries.type = .whole then .error .integerPoint else .ok .strict
  else .ok .lenient

variable [Scalar α]

/-- The first array plus a multiple of the second. The strict family scales and adds in the kind of
entries in which both meet; it scales integers by integers only, and numbers by no factor that is out
of the range of their precision. -/
def scaledAdd : Family → Tensor α → Factor α → Tensor α → Except Mismatch (Tensor α)
  | lenient, a, f, b => do a.add (← b.scale f)
  | strict, a, f, b =>
    match a.family?, b.family? with
    | some .strict, some .strict =>
      let refused : Except Mismatch (Tensor α) := .error (.operands .strict)
      let made := fun (entries : Entries α) => (⟨some .strict, entries⟩ : Tensor α)
      let type := Tensor.meetingType .strict a b
      if f.accepted strict type then
        match type, f with
        | .real p, f =>
          let ar := Arithmetic.real p
          let step := fun x y => ar.add x (ar.mul (f.value strict p) y)
          if f.inRange p then
            ((Dense.combine ar step (a.entries.toReal p) (b.entries.toReal p)).map
              (made ∘ .real p)).elim refused .ok
          else refused
        | .whole, .whole k =>
          let ar := Arithmetic.whole
          let step := fun x y => ar.add x (ar.mul k y)
          ((Dense.combine ar step a.entries.toWhole b.entries.toWhole).map
            (made ∘ .whole)).elim refused .ok
        | .whole, .real _ => refused
      else .error .factor
    | _, _ => .error .kind

/-- Whether an array of the strict family has one axis. -/
def isVector (t : Tensor α) : Bool := t.extent.rank == 1

/-- The inner product of two arrays, as a number. -/
def dot (family : Family) (a b : Tensor α) : Except Mismatch α := do
  if family = strict then
    unless a.family? = some .strict ∧ b.family? = some .strict do throw .kind
    unless isVector a ∧ isVector b ∧ a.entries.type = b.entries.type do throw (.operands strict)
  let contracted : Dense.Inner α :=
    match a.entries.type.joinLenient b.entries.type with
    | .real p => Dense.inner (.real p) (a.entries.toReal p) (b.entries.toReal p)
    | .whole =>
      match Dense.inner Arithmetic.whole a.entries.toWhole b.entries.toWhole with
      | .value k => .value (Scalar.ofInt k)
      | .array => .array
      | .mismatch => .mismatch
  match contracted with
  | .value x => .ok x
  | .array => .error .notNumber
  | .mismatch => .error (.operands family)

/-- The outer product of two arrays: the lenient family flattens them first, the strict family wants
two vectors. -/
def outer (family : Family) (a b : Tensor α) : Except Mismatch (Tensor α) := do
  if family = strict then
    unless a.family? = some .strict ∧ b.family? = some .strict do throw .kind
    unless isVector a ∧ isVector b do throw (.operands strict)
  match Entries.combine (Tensor.meetingType family a b)
      (fun _ ar x y => some (Dense.outer ar x.entries y.entries)) a.entries b.entries with
  | some entries => .ok ⟨some family, entries⟩
  | none => .error (.operands family)

/-- The product of a matrix and a vector; only the strict family insists on these shapes. -/
def mulVec (family : Family) (m v : Tensor α) : Except Mismatch (Tensor α) := do
  if family = strict then
    unless m.family? = some .strict ∧ v.family? = some .strict do throw .kind
    unless m.extent.rank = 2 ∧ isVector v do throw (.operands strict)
  m.mul v

/-- The Euclidean norm of all entries, computed in their own precision. -/
def norm (family : Family) (t : Tensor α) : Except Mismatch α := do
  if family = strict then
    unless t.family? = some .strict do throw .kind
    if t.entries.type = .whole then throw (.operands strict)
  let precision := match t.entries.type with
    | .real p => p
    | .whole => .double
  let xs := (t.entries.toReal precision).entries
  .ok (precision.round (Scalar.sqrt (Arithmetic.dot (.real precision) xs xs)))

/-- Whether all entries are finite; the lenient family cannot ask this of a strict array. -/
def allFinite (family : Family) (t : Tensor α) : Except Mismatch Bool :=
  if family = lenient ∧ t.family? = some .strict then .error .kind
  else
    match t.entries with
    | .real _ xs => .ok (xs.all Scalar.isFinite)
    | .whole _ => .ok true

/-- An independent copy: a lenient one has numbers of double precision, a strict one is of a strict
array and keeps its entries. -/
def copy : Family → Tensor α → Except Mismatch (Tensor α)
  | lenient, t => .ok (.lenient t.values)
  | strict, t => if t.family? = some .strict then .ok t else .error .noShape

/-- The entries as a lenient array of double precision. -/
def widen (t : Tensor α) : Tensor α := .lenient t.values

/-- An array of numbers of double precision turned into the family: the strict family gives it the
entries of the strict array `like`, or double precision if `like` is none. -/
def adopt : Family → Dense α → (like : Tensor α) → Tensor α
  | lenient, xs, _ => .lenient xs
  | strict, xs, like =>
    if like.family? = some .strict then
      ⟨some .strict, (Entries.real .double xs).cast like.entries.type⟩
    else .strict xs

/-- The entries of an operand turned into another kind. A plain list is read as numbers of double
precision on the way to other numbers, and refused where integers are needed and a number is out of
their range. -/
def castEntries (t : Tensor α) (type : ElementType) : Except Mismatch (Entries α) :=
  match t.family?, type, t.entries with
  | none, .whole, .real _ xs =>
    if xs.all fun x => Scalar.abs x ≤ Scalar.ofInt (Int.pow 2 63) then .ok (t.entries.cast type)
    else .error (.operands strict)
  | none, .real _, _ => .ok ((Entries.real .double t.values).cast type)
  | _, _, _ => .ok (t.entries.cast type)

/-- Any operand turned into the family, with the entries of a strict array `like` if the family is the
strict one and there is such an array, and with double precision otherwise. -/
def convert (family : Family) (t : Tensor α) (like : Option (Tensor α)) :
    Except Mismatch (Tensor α) :=
  match family, like with
  | lenient, _ => .ok (.lenient t.values)
  | strict, none => .ok (.strict t.values)
  | strict, some like =>
    if like.family? = some .strict then
      return ⟨some .strict, ← castEntries t like.entries.type⟩
    else .ok (.strict t.values)

/-- The kind of entries of an identity matrix that should match an array: only an array of the same
family is taken into account. -/
def identityType (family : Family) (like : Option (Tensor α)) : ElementType :=
  match like with
  | some t => if t.family? = some family then t.entries.type else .real .double
  | none => .real .double

/-- The identity matrix with `n` rows. -/
def identity (family : Family) (n : Int) (like : Option (Tensor α)) : Except Mismatch (Tensor α) :=
  if n < 0 then .error (.operands family)
  else
    .ok ⟨some family, match identityType family like with
      | .real p => .real p (Dense.identity (.real p) n.toNat)
      | .whole => .whole (Dense.identity .whole n.toNat)⟩

end QuasiNewton.Family
