import AllScale.DataItemManager.LocationInfo

/-!
# Data items

The part of a data item that one locality stores. What the runtime relies on in the fragment
type of an application is that a fragment is a partial map, that resizing keeps the values of
the elements it keeps and that extracting and inserting copies the extracted elements; a value
that no one has set is `none`. `DataItemView` is the transfer of a region between two
localities: `save` runs at the sender and `load` at the receiver.
-/

namespace AllScale

variable {α V : Type} [DecidableEq α]

/-- A fragment of a data item. -/
structure Fragment (α V : Type) where
  /-- `getCoveredRegion` — the elements the fragment has memory for. -/
  coveredRegion : Finset α
  /-- The value of an element, `none` while nothing has been stored. -/
  value : α → Option V

namespace Fragment

/-- A new fragment. -/
def create : Fragment α V := ⟨∅, fun _ => none⟩

/-- `resize` — cover exactly a region and keep the values of the elements kept. -/
def resize (fragment : Fragment α V) (region : Finset α) : Fragment α V :=
  ⟨region, fun x => if x ∈ fragment.coveredRegion ∩ region then fragment.value x else none⟩

/-- What `extract` writes into an archive. -/
structure Archive (α V : Type) where
  /-- The extracted region. -/
  region : Finset α
  /-- The values of its elements. -/
  value : α → Option V

/-- `extract`. -/
def extract (fragment : Fragment α V) (region : Finset α) : Archive α V :=
  ⟨region, fragment.value⟩

/-- `insert`. -/
def insert (fragment : Fragment α V) (archive : Archive α V) : Fragment α V :=
  { fragment with
    value := fun x => if x ∈ archive.region then archive.value x else fragment.value x }

/-- A write of the application to one element. -/
def write (fragment : Fragment α V) (x : α) (v : V) : Fragment α V :=
  { fragment with value := Function.update fragment.value x (some v) }

/-- A write changes one value. -/
theorem value_write (fragment : Fragment α V) (x : α) (v : V) (y : α) :
    (fragment.write x v).value y = if y = x then some v else fragment.value y :=
  Function.update_apply fragment.value x (some v) y

end Fragment

/-- `data_item` — what a locality stores of a data item. -/
structure DataItem (α V : Type) where
  /-- The fragment of the locality. -/
  fragment : Fragment α V
  /-- The region the locality reports as exclusively its own. -/
  exclusive : Finset α

/-- An item no one has used yet; `fragment()` creates the fragment on first use. -/
def DataItem.create : DataItem α V := ⟨.create, ∅⟩

/-- `data_item_view` — a region to be sent. -/
structure DataItemView (α : Type) where
  /-- The region. -/
  region : Finset α
  /-- The sender gives its copy up. -/
  migrate : Bool

namespace DataItemView

/-- `data_item_view::save` — what is written behind the id, `none` for a lone `false`, and the
item of the sender afterwards. -/
def save (view : DataItemView α) (item : DataItem α V) :
    Option (Fragment.Archive α V) × DataItem α V :=
  if view.region ⊆ item.fragment.coveredRegion then
    let archive := item.fragment.extract view.region
    if view.migrate then
      let reserved := item.fragment.coveredRegion \ view.region
      (some archive, { item with fragment := item.fragment.resize reserved })
    else (some archive, item)
  else (none, item)

/-- `data_item_view::load` — the item of the receiver afterwards. -/
def load (item : DataItem α V) : Option (Fragment.Archive α V) → DataItem α V
  | some archive => { item with fragment := item.fragment.insert archive }
  | none => item

end DataItemView

end AllScale
