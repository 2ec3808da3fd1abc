import ImageBrowser.Cache.ClassCategories
import ImageBrowser.Cache.Environments

/-! What cached entries answer to questions that are put to them by name. -/

namespace ImageBrowser

def fromLines (lines : Value) (part : String) : Except Fault Value := do
  match ← lines.asItems with
  | line :: _ => throw (.noSuchOperation line.typeName part)
  | [] => throw (.mismatch .wrongArguments)

def ClassCategories.ask (c : ClassCategories) (question : String) (arguments : List Value) :
    Except Fault Value :=
  match question, arguments with
  | "category_names", [] => c.categoryNames.map .list
  | "all_class_names", [] => c.allClassNames.map .list
  | "class_names_in", [category] => (c.classNamesIn category).map .list
  | "from_dictionary_entries", [entries] => fromLines entries "is_class"
  | "category_names", _ | "all_class_names", _ | "class_names_in", _
  | "from_dictionary_entries", _ => .error (.mismatch .wrongArguments)
  | "categories", _ => .error (.mismatch (.notCallable "dict"))
  | "globals", _ => .error (.mismatch (.notCallable "list"))
  | _, _ => .error (.noSuchOperation "ClassCategories" question)

def Environments.ask (e : Environments) (question : String) (arguments : List Value) :
    Except Fault Value :=
  match question, arguments with
  | "category_names", [isMeta, environment] => (e.categoryNames isMeta environment).map .list
  | "selectors_in", [isMeta, environment, category] => e.selectorsIn isMeta environment category
  | "categorized_selectors", [isMeta, environment] =>
    (e.categorizedSelectors isMeta environment).map fun pairs =>
      .list (pairs.map fun p => .list [p.1, p.2])
  | "from_environment_categories", [lines] => fromLines lines "is_meta"
  | "category_names", _ | "selectors_in", _ | "categorized_selectors", _
  | "from_environment_categories", _ => .error (.mismatch .wrongArguments)
  | "categories", _ => .error (.mismatch (.notCallable "dict"))
  | _, _ => .error (.noSuchOperation "Environments" question)

end ImageBrowser
