import QuasiNewton.Dense.Product

/-!
# Dense vectors and matrices

The operations on dense arrays choose by the shapes they meet. On arrays with one axis and on square
matrices each of them has one outcome, which this module states entry by entry: every arithmetic of
entries will do.
-/

set_option autoImplicit false

namespace QuasiNewton.Dense

variable {δ ε : Type} {n : Nat} (ar : Arithmetic ε) (x y : Fin n → ε) (a b : Fin n → Fin n → ε)

/-- The array with one axis whose entries are the values of a function. -/
def ofFn (x : Fin n → ε) : Dense ε := .vector (Vector.ofFn x)

theorem combine_ofFn (f : ε → ε → ε) :
    combine ar f (ofFn x) (ofFn y) = some (ofFn fun i => f (x i) (y i)) := by
  have entries : Vector.zipWith f (Vector.ofFn x) (Vector.ofFn y) =
      Vector.ofFn fun i => f (x i) (y i) := by
    ext i h
    simp
  exact (dif_pos rfl).trans (congrArg (fun v => some (Dense.mk [n] v)) entries)

theorem combine_matrix (f : ε → ε → ε) :
    combine ar f (matrix a) (matrix b) = some (matrix fun i j => f (a i j) (b i j)) := by
  have entries : Vector.zipWith f
      (Vector.ofFn fun place : Fin (n * n) => a (Shape.row place) (Shape.column place))
      (Vector.ofFn fun place : Fin (n * n) => b (Shape.row place) (Shape.column place)) =
      Vector.ofFn fun place => f (a (Shape.row place) (Shape.column place))
        (b (Shape.row place) (Shape.column place)) := by
    ext i h
    simp
  exact (dif_pos rfl).trans (congrArg (fun v => some (Dense.mk [n, n] v)) entries)

@[simp] theorem map_ofFn (f : ε → δ) : (ofFn x).map f = ofFn (f ∘ x) :=
  congrArg (Dense.mk [n]) (Vector.map_ofFn (f := x) (g := f))

@[simp] theorem map_matrix (f : ε → δ) : (matrix a).map f = matrix fun i j => f (a i j) :=
  congrArg (Dense.mk [n, n]) (Vector.map_ofFn (g := f))

theorem inner_ofFn : inner ar (ofFn x) (ofFn y) = .value (ar.dot (Vector.ofFn x) (Vector.ofFn y)) :=
  dif_pos rfl

theorem get_ofFn {k : Nat} (f : Fin k → ε) (i : Fin k) : (Vector.ofFn f).get i = f i :=
  Vector.getElem_ofFn i.isLt

theorem get_matrix (i j : Fin n) :
    Vector.get (n := n * n) (matrix a).entries (Shape.cell i j) = a i j := by
  have read : Vector.get (n := n * n) (matrix a).entries (Shape.cell i j) =
      a (Shape.row (Shape.cell i j)) (Shape.column (Shape.cell i j)) :=
    get_ofFn _ _
  simpa using read

theorem transpose_matrix (default : ε) : (matrix a).transpose default = .matrix fun i j => a j i :=
  congrArg matrix (funext fun i => funext fun j => get_matrix a j i)

theorem mulVec_matrix :
    mulVec (n := n) (m := n) ar (matrix a).entries (Vector.ofFn x) =
      Vector.ofFn fun i => ar.sum fun j => ar.mul (a i j) (x j) := by
  unfold mulVec
  simp only [get_ofFn]
  exact congrArg Vector.ofFn (funext fun i => congrArg ar.sum (funext fun j =>
    congrArg (ar.mul · (x j)) (get_matrix a i j)))

theorem mul_matrix_ofFn :
    mul ar (matrix a) (ofFn x) = some (ofFn fun i => ar.sum fun j => ar.mul (a i j) (x j)) :=
  (dif_pos rfl).trans (congrArg (fun v => some (Dense.mk [n] v)) (mulVec_matrix ar x a))

theorem outer_ofFn :
    outer (n := n) (m := n) ar (ofFn x).entries (ofFn y).entries =
      matrix fun i j => ar.mul (x i) (y j) :=
  congrArg matrix (funext fun i => funext fun j =>
    congr (congrArg ar.mul (get_ofFn x i)) (get_ofFn y j))

@[simp] theorem getD_matrix (i j : Fin n) (default : ε) :
    (matrix a).getD (Shape.cell i j) default = a i j := by
  have inside : (Shape.cell i j : Nat) < n * n := (Shape.cell i j).isLt
  have read : (matrix a).getD (Shape.cell i j) default =
      a (Shape.row (Shape.cell i j)) (Shape.column (Shape.cell i j)) := by
    simp [getD, matrix, Shape.size, inside]
  simpa using read

@[simp] theorem getD_ofFn (i : Fin n) (default : ε) : (ofFn x).getD i default = x i := by
  simp [getD, ofFn, vector]

end QuasiNewton.Dense
