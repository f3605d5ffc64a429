import DatalogFragments.Value.Equality

/-!
# Order of keys

Entries of a mapping are written in the order of their keys where the keys can be ordered:
numbers with numbers, texts and octets by their characters, calendar values by time, and
tuples by their first difference. Keys of different kinds have no order.

## Main definitions

* `Value.below?`: the strict order, where there is one;
* `Value.sortedByKey?`: items in the order of their keys.
-/

namespace DatalogFragments.Value

/-- The strict lexicographic order of octets. -/
def octetsBelow : List UInt8 → List UInt8 → Bool
  | [], [] => false
  | [], _ :: _ => true
  | _ :: _, [] => false
  | a :: as, b :: bs => a < b || (a == b && octetsBelow as bs)

mutual

/-- Whether a key comes before another one; `none` if the two have no order. -/
def below? : Value → Value → Option Bool
  | .text s, w => match w with | .text t => some (decide (s < t)) | _ => none
  | .bytes bs, w => match w with | .bytes cs => some (octetsBelow bs cs) | _ => none
  | .date d, w =>
    match w with
    | .date e => some (decide (d.ordinal < e.ordinal))
    | _ => none
  | .moment m, w =>
    match w with
    | .moment n =>
      if m.zone.isSome == n.zone.isSome then
        some (decide (m.instant (m.zone.getD 0) < n.instant (n.zone.getD 0)))
      else none
    | _ => none
  | .tuple xs, w => match w with | .tuple ys => belowItems? xs ys | _ => none
  | v, w =>
    match v.number?, w.number? with
    | some m, some n => some (m.below n)
    | _, _ => none

/-- The order of items by their first difference. -/
def belowItems? : List Value → List Value → Option Bool
  | [], ys => some (!ys.isEmpty)
  | x :: xs, ys =>
    match ys with
    | [] => some false
    | y :: ys => if x.same y then belowItems? xs ys else below? x y

end

/-- Whether every two of the keys have an order. -/
def areOrdered : List Value → Bool
  | [] => true
  | k :: ks => ks.all (fun l => (below? k l).isSome) && areOrdered ks

/-- Items in the order of their keys, if the keys can be ordered. -/
def sortedByKey? {α : Type} (key : α → Value) (items : List α) : Option (List α) :=
  if areOrdered (items.map key) then
    some (items.mergeSort fun a b => !((below? (key b) (key a)).getD false))
  else none

end DatalogFragments.Value
