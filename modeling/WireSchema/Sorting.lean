/-!
Stable sorting by insertion. Each element is moved down past the greater ones before it and
stops behind the first that is not greater, so equal elements keep their order. The elements of a
sorted list up to a bound are found by halving.
-/

namespace WireSchema.Sorting

variable {α : Type}

def insertDown (lt : α → α → Bool) (x : α) : List α → List α
  | [] => [x]
  | y :: rest => if lt x y then y :: insertDown lt x rest else x :: y :: rest

def stable (lt : α → α → Bool) (xs : List α) : List α :=
  (xs.foldl (fun sorted x => insertDown lt x sorted) []).reverse

def frontWithin (p : α → Bool) : Nat → List α → List α
  | 0, xs => xs.filter p
  | steps + 1, xs =>
      let half := xs.length / 2
      match xs.take half, xs.drop half with
      | [], rest => rest.filter p
      | low, [] => low
      | low, mid :: rest =>
          -- The front half is taken unseen if the element in the middle has `p`.
          if p mid then low ++ frontWithin p steps (mid :: rest)
          else frontWithin p steps (xs.take (xs.length - half))

/-- The front part of a list whose elements with `p` come first. The element in the middle tells
which half to look at next, so an element is asked only if the search comes across it. -/
def front (p : α → Bool) (xs : List α) : List α :=
  frontWithin p xs.length xs

end WireSchema.Sorting
