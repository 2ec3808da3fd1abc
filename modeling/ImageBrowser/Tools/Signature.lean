import ImageBrowser.Fault

/-! The tools that a client can call, and their parameters. -/

namespace ImageBrowser

inductive Tool
  | connect
  | disconnect
  | listSessions
  | selectSession
  | browse
  | refresh
  | getContent
  | listClasses
  | listMethodCategories
  | listMethods
  | allClassNames
  | classHierarchy
  | searchMethodSource
  | sendersOf
  | implementorsOf
  | compileMethod
  | compileClassDefinition
  | setClassComment
  | deleteMethod
  | recategorizeMethod
  | renameCategory
  | deleteClass
  | moveClass
  | addDictionary
  | moveDictionary
  | commit
  | begin
  | abort
  deriving DecidableEq, Repr

/-- A parameter without a default has to be given. -/
structure Parameter where
  name : String
  default : Option Value := none
  deriving DecidableEq, Repr

namespace Tool

def all : List Tool := [
  connect, disconnect, listSessions, selectSession, browse, refresh, getContent, listClasses,
  listMethodCategories, listMethods, allClassNames, classHierarchy, searchMethodSource, sendersOf,
  implementorsOf, compileMethod, compileClassDefinition, setClassComment, deleteMethod,
  recategorizeMethod, renameCategory, deleteClass, moveClass, addDictionary, moveDictionary,
  commit, begin, abort]

def name : Tool → String
  | connect => "gs_connect"
  | disconnect => "gs_disconnect"
  | listSessions => "gs_list_sessions"
  | selectSession => "gs_select_session"
  | browse => "gs_browse"
  | refresh => "gs_refresh"
  | getContent => "gs_get_content"
  | listClasses => "gs_list_classes"
  | listMethodCategories => "gs_list_method_categories"
  | listMethods => "gs_list_methods"
  | allClassNames => "gs_all_class_names"
  | classHierarchy => "gs_class_hierarchy"
  | searchMethodSource => "gs_search_method_source"
  | sendersOf => "gs_senders_of"
  | implementorsOf => "gs_implementors_of"
  | compileMethod => "gs_compile_method"
  | compileClassDefinition => "gs_compile_class_definition"
  | setClassComment => "gs_set_class_comment"
  | deleteMethod => "gs_delete_method"
  | recategorizeMethod => "gs_recategorize_method"
  | renameCategory => "gs_rename_category"
  | deleteClass => "gs_delete_class"
  | moveClass => "gs_move_class"
  | addDictionary => "gs_add_dictionary"
  | moveDictionary => "gs_move_dictionary"
  | commit => "gs_commit"
  | begin => "gs_begin"
  | abort => "gs_abort"

def ofName? (s : String) : Option Tool := all.find? fun t => t.name = s

def needed (names : List String) : List Parameter := names.map fun n => ⟨n, none⟩

def onSide : Parameter := ⟨"is_meta", some (.flag false)⟩

def inFirst : Parameter := ⟨"environment_id", some (.whole 0)⟩

def parameters : Tool → List Parameter
  | connect =>
    needed ["connection_mode"] ++
      [⟨"gemstone_user_name", some (.text "")⟩, ⟨"gemstone_password", some (.text "")⟩,
        ⟨"stone_name", some (.text "gs64stone")⟩, ⟨"rpc_hostname", some (.text "localhost")⟩,
        ⟨"netldi_name", some (.text "gemnetobject")⟩]
  | disconnect | selectSession => needed ["session_id"]
  | browse => [⟨"node", some .null⟩]
  | getContent => [⟨"node", some .null⟩, ⟨"locator", some .null⟩]
  | listClasses | addDictionary => needed ["dictionary_name"]
  | listMethodCategories => needed ["class_name"] ++ [onSide]
  | listMethods => needed ["class_name", "category"] ++ [onSide]
  | classHierarchy => needed ["class_name"]
  | searchMethodSource => needed ["term"] ++ [⟨"ignore_case", some (.flag true)⟩]
  | sendersOf | implementorsOf => needed ["selector"] ++ [inFirst]
  | compileMethod =>
    needed ["class_name", "source"] ++
      [onSide, ⟨"category", some (.text "as yet unclassified")⟩, inFirst]
  | compileClassDefinition => needed ["source"]
  | setClassComment => needed ["class_name", "comment"]
  | deleteMethod => needed ["class_name", "selector"] ++ [onSide]
  | recategorizeMethod => needed ["class_name", "selector", "new_category"] ++ [onSide]
  | renameCategory => needed ["class_name", "old_category", "new_category"] ++ [onSide]
  | deleteClass => needed ["dictionary_name", "class_name"]
  | moveClass =>
    needed ["source_dictionary_name", "destination_dictionary_name", "class_name"]
  | moveDictionary => needed ["dictionary_name", "direction"]
  | listSessions | refresh | allClassNames | commit | begin | abort => []

def bindArguments (t : Tool) (given : List (String × Value)) : Except Fault (List Value) :=
  let wrong := Fault.mismatch .wrongArguments
  if given.all fun a => t.parameters.any fun p => p.name = a.1 then
    match t.parameters.mapM fun p => (given.lookup p.name).or p.default with
    | some values => .ok values
    | none => .error wrong
  else .error wrong

end Tool

end ImageBrowser
