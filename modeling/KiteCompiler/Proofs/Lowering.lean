import KiteCompiler.Java.Lowering

/-!
# Lowering lists and dimensions

Lists are lowered element by element. Dimensions behind a type are lowered to dimensions in front of those of its Java
type.
-/

namespace KiteCompiler

namespace Java

theorem ofList_toList {c : Category} : (as : Java (.list c)) → ofList as.toList = as
  | .nil => by rw [toList, ofList]
  | .cons a as => by rw [toList, ofList, ofList_toList as]

theorem withDims_withDims (outer inner : List (Java .dim)) (t : Java .type) :
    withDims outer (withDims inner t) = withDims (outer ++ inner) t := by
  cases t with
  | type e dims => rw [withDims, withDims, withDims, toList_ofList, List.append_assoc]

end Java

namespace Ast

theorem lower_ofList {c : Category} (as : List (Ast c)) : (ofList as).lower = as.map lower := by
  induction as with
  | nil => rfl
  | cons a as ih => exact congrArg (a.lower :: ·) ih

theorem lower_withDims (t : Ast .type) (ds : List (Ast .dim)) :
    (withDims t ds).lower = Java.withDims (ds.map lower) t.lower := by
  induction ds with
  | nil =>
    change (t.lower : Java .type) = Java.withDims [] t.lower
    generalize (t.lower : Java .type) = t
    cases t with
    | type e inner => rw [Java.withDims, List.nil_append, Java.ofList_toList]
  | cons d ds ih =>
    cases d with
    | dim p as =>
      change Java.withDims [(dim p as).lower] (withDims t ds).lower = _
      rw [ih, Java.withDims_withDims]
      rfl

end Ast

end KiteCompiler
