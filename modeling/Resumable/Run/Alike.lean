import Resumable.Run.World

/-!
# `Run.Alike`: constants that look the same

Two values look the same when they have one type and equal contents, following pointers. Functions look
the same only when both are nil, and a number that differs from itself looks like nothing.
-/

namespace Resumable

/-- Whether two lists look the same, element by element. -/
def alikeLists (alike : α → α → Bool) (xs ys : List α) : Bool :=
  xs.length == ys.length && (xs.zip ys).all fun (x, y) => alike x y

/-- Whether two optional values look the same. -/
def alikeOptions (alike : α → α → Bool) : Option α → Option α → Bool
  | none, none => true
  | some x, some y => alike x y
  | _, _ => false

namespace World

/-- Whether two values look the same in a store; `depth` bounds how far pointers are followed. -/
def alikeAt (w : World) : Nat → Value → Value → Bool
  | 0, _, _ => true
  | depth + 1, a, b =>
    let alike := w.alikeAt depth
    a.typeOf == b.typeOf &&
      match a, b with
      | .bool _ x, .bool _ y => x == y
      | .int _ x, .int _ y => x == y
      | .float _ x, .float _ y => x == y
      | .complex _ x y, .complex _ z u => x == z && y == u
      | .text _ x, .text _ y => x == y
      | .struct _ xs, .struct _ ys => alikeLists alike xs ys
      | .slice _ xs, .slice _ ys => alikeLists alike xs ys
      | .array _ xs, .array _ ys => alikeLists alike xs ys
      | .null _, .null _ => true
      | .box _ x, .box _ y => alikeOptions alike x y
      | .type s, .type t => s == t
      | .refusal r, .refusal q => r == q
      | .pointer _ x, .pointer _ y =>
        x == y ||
          match w.store.getD x default, w.store.getD y default with
          | .value v, .value u => alike v u
          | .completion c, .completion d =>
            c.done == d.done && alikeOptions alike c.err d.err && alikeOptions alike c.value d.value &&
              c.wakers.isEmpty && d.wakers.isEmpty && c.binding == d.binding && c.version == d.version
          | _, _ => false
      | _, _ => false

/-- Whether two constants look the same. -/
def alike (w : World) (a b : Option Value) : Bool := alikeOptions (w.alikeAt 64) a b

end World

end Resumable
