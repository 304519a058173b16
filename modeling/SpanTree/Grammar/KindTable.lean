/-!
# Tables of node kinds

Each grammar table knows a set of node kinds: the named kinds that occur in trees,
in the order of their names, and a few more names that the table accepts as a start
rule although no node is of that kind. Besides these, every table accepts the name of
error nodes, which may be cut short, down to no letter at all.
-/

namespace SpanTree

/-- The node kinds that a grammar table knows. -/
structure KindTable where
  /-- the kinds that occur in trees, in order -/
  kinds : List String
  /-- the kinds that stand for several others and occur in no tree themselves -/
  startsOnly : List String
  deriving DecidableEq, Repr

namespace KindTable

/-- The name of error nodes. -/
def errorName : List Char := "ERROR".toList

/-- Whether a name means error nodes: it is the beginning of their name, or their name up
to a NUL, after which nothing is looked at. -/
def meansError (name : String) : Bool :=
  name.toList.isPrefixOf errorName || (errorName ++ [Char.ofNat 0]).isPrefixOf name.toList

/-- Whether the table accepts a name as its start rule. -/
def hasStart (table : KindTable) (name : String) : Bool :=
  meansError name || table.kinds.contains name || table.startsOnly.contains name

/-- The table for HTML. -/
def html : KindTable where
  kinds := [
    "attribute", "attribute_name", "attribute_value", "comment", "doctype", "document",
    "element", "end_tag", "entity", "erroneous_end_tag", "erroneous_end_tag_name",
    "quoted_attribute_value", "raw_text", "script_element", "self_closing_tag", "start_tag",
    "style_element", "tag_name", "text"]
  startsOnly := []

/-- The table for Python. -/
def python : KindTable where
  kinds := [
    "aliased_import", "argument_list", "as_pattern", "as_pattern_target", "assert_statement",
    "assignment", "attribute", "augmented_assignment", "await", "binary_operator", "block",
    "boolean_operator", "break_statement", "call", "case_clause", "case_pattern", "chevron",
    "class_definition", "class_pattern", "comment", "comparison_operator", "complex_pattern",
    "concatenated_string", "conditional_expression", "constrained_type", "continue_statement",
    "decorated_definition", "decorator", "default_parameter", "delete_statement",
    "dict_pattern", "dictionary", "dictionary_comprehension", "dictionary_splat",
    "dictionary_splat_pattern", "dotted_name", "elif_clause", "ellipsis", "else_clause",
    "escape_interpolation", "escape_sequence", "except_clause", "except_group_clause",
    "exec_statement", "expression_list", "expression_statement", "false", "finally_clause",
    "float", "for_in_clause", "for_statement", "format_expression", "format_specifier",
    "function_definition", "future_import_statement", "generator_expression", "generic_type",
    "global_statement", "identifier", "if_clause", "if_statement", "import_from_statement",
    "import_prefix", "import_statement", "integer", "interpolation", "keyword_argument",
    "keyword_pattern", "keyword_separator", "lambda", "lambda_parameters",
    "line_continuation", "list", "list_comprehension", "list_pattern", "list_splat",
    "list_splat_pattern", "match_statement", "member_type", "module", "named_expression",
    "none", "nonlocal_statement", "not_operator", "pair", "parameters",
    "parenthesized_expression", "parenthesized_list_splat", "pass_statement", "pattern_list",
    "positional_separator", "print_statement", "raise_statement", "relative_import",
    "return_statement", "set", "set_comprehension", "slice", "splat_pattern", "splat_type",
    "string", "string_content", "string_end", "string_start", "subscript", "true",
    "try_statement", "tuple", "tuple_pattern", "type", "type_alias_statement",
    "type_conversion", "type_parameter", "typed_default_parameter", "typed_parameter",
    "unary_operator", "union_pattern", "union_type", "while_statement", "wildcard_import",
    "with_clause", "with_item", "with_statement", "yield"]
  startsOnly := ["expression", "parameter", "pattern", "primary_expression"]

/-- The table for JavaScript. -/
def javascript : KindTable where
  kinds := [
    "arguments", "array", "array_pattern", "arrow_function", "assignment_expression",
    "assignment_pattern", "augmented_assignment_expression", "await_expression",
    "binary_expression", "break_statement", "call_expression", "catch_clause", "class",
    "class_body", "class_declaration", "class_heritage", "class_static_block", "comment",
    "computed_property_name", "continue_statement", "debugger_statement", "decorator",
    "do_statement", "else_clause", "empty_statement", "escape_sequence", "export_clause",
    "export_specifier", "export_statement", "expression_statement", "false",
    "field_definition", "finally_clause", "for_in_statement", "for_statement",
    "formal_parameters", "function_declaration", "function_expression", "generator_function",
    "generator_function_declaration", "hash_bang_line", "html_character_reference",
    "html_comment", "identifier", "if_statement", "import", "import_attribute",
    "import_clause", "import_specifier", "import_statement", "jsx_attribute",
    "jsx_closing_element", "jsx_element", "jsx_expression", "jsx_namespace_name",
    "jsx_opening_element", "jsx_self_closing_element", "jsx_text", "labeled_statement",
    "lexical_declaration", "member_expression", "meta_property", "method_definition",
    "named_imports", "namespace_export", "namespace_import", "new_expression", "null",
    "number", "object", "object_assignment_pattern", "object_pattern", "optional_chain",
    "pair", "pair_pattern", "parenthesized_expression", "private_property_identifier",
    "program", "property_identifier", "regex", "regex_flags", "regex_pattern", "rest_pattern",
    "return_statement", "sequence_expression", "shorthand_property_identifier",
    "shorthand_property_identifier_pattern", "spread_element", "statement_block",
    "statement_identifier", "string", "string_fragment", "subscript_expression", "super",
    "switch_body", "switch_case", "switch_default", "switch_statement", "template_string",
    "template_substitution", "ternary_expression", "this", "throw_statement", "true",
    "try_statement", "unary_expression", "undefined", "update_expression",
    "variable_declaration", "variable_declarator", "while_statement", "with_statement",
    "yield_expression"]
  startsOnly := ["declaration", "expression", "pattern", "primary_expression", "statement"]

/-- The table for Rust. -/
def rust : KindTable where
  kinds := [
    "abstract_type", "arguments", "array_expression", "array_type", "assignment_expression",
    "associated_type", "async_block", "attribute", "attribute_item", "await_expression",
    "base_field_initializer", "binary_expression", "block", "block_comment",
    "boolean_literal", "bounded_type", "bracketed_type", "break_expression",
    "call_expression", "captured_pattern", "char_literal", "closure_expression",
    "closure_parameters", "compound_assignment_expr", "const_block", "const_item",
    "const_parameter", "continue_expression", "crate", "declaration_list", "doc_comment",
    "dynamic_type", "else_clause", "empty_statement", "enum_item", "enum_variant",
    "enum_variant_list", "escape_sequence", "expression_statement",
    "extern_crate_declaration", "extern_modifier", "field_declaration",
    "field_declaration_list", "field_expression", "field_identifier", "field_initializer",
    "field_initializer_list", "field_pattern", "float_literal", "for_expression",
    "for_lifetimes", "foreign_mod_item", "fragment_specifier", "function_item",
    "function_modifiers", "function_signature_item", "function_type", "gen_block",
    "generic_function", "generic_pattern", "generic_type", "generic_type_with_turbofish",
    "higher_ranked_trait_bound", "identifier", "if_expression", "impl_item",
    "index_expression", "inner_attribute_item", "inner_doc_comment_marker", "integer_literal",
    "label", "let_chain", "let_condition", "let_declaration", "lifetime",
    "lifetime_parameter", "line_comment", "loop_expression", "macro_definition",
    "macro_invocation", "macro_rule", "match_arm", "match_block", "match_expression",
    "match_pattern", "metavariable", "mod_item", "mut_pattern", "mutable_specifier",
    "negative_literal", "never_type", "or_pattern", "ordered_field_declaration_list",
    "outer_doc_comment_marker", "parameter", "parameters", "parenthesized_expression",
    "pointer_type", "primitive_type", "qualified_type", "range_expression", "range_pattern",
    "raw_string_literal", "ref_pattern", "reference_expression", "reference_pattern",
    "reference_type", "remaining_field_pattern", "removed_trait_bound", "return_expression",
    "scoped_identifier", "scoped_type_identifier", "scoped_use_list", "self",
    "self_parameter", "shebang", "shorthand_field_identifier", "shorthand_field_initializer",
    "slice_pattern", "source_file", "static_item", "string_content", "string_literal",
    "struct_expression", "struct_item", "struct_pattern", "super", "token_binding_pattern",
    "token_repetition", "token_repetition_pattern", "token_tree", "token_tree_pattern",
    "trait_bounds", "trait_item", "try_block", "try_expression", "tuple_expression",
    "tuple_pattern", "tuple_struct_pattern", "tuple_type", "type_arguments", "type_binding",
    "type_cast_expression", "type_identifier", "type_item", "type_parameter",
    "type_parameters", "unary_expression", "union_item", "unit_expression", "unit_type",
    "unsafe_block", "use_as_clause", "use_bounds", "use_declaration", "use_list",
    "use_wildcard", "variadic_parameter", "visibility_modifier", "where_clause",
    "where_predicate", "while_expression", "yield_expression"]
  startsOnly := ["_expression", "_literal", "_literal_pattern", "_pattern", "_type"]

/-- The table for Go. -/
def go : KindTable where
  kinds := [
    "argument_list", "array_type", "assignment_statement", "binary_expression",
    "blank_identifier", "block", "break_statement", "call_expression", "channel_type",
    "comment", "communication_case", "composite_literal", "const_declaration", "const_spec",
    "continue_statement", "dec_statement", "default_case", "defer_statement", "dot",
    "empty_statement", "escape_sequence", "expression_case", "expression_list",
    "expression_statement", "expression_switch_statement", "fallthrough_statement", "false",
    "field_declaration", "field_declaration_list", "field_identifier", "float_literal",
    "for_clause", "for_statement", "func_literal", "function_declaration", "function_type",
    "generic_type", "go_statement", "goto_statement", "identifier", "if_statement",
    "imaginary_literal", "implicit_length_array_type", "import_declaration", "import_spec",
    "import_spec_list", "inc_statement", "index_expression", "int_literal", "interface_type",
    "interpreted_string_literal", "interpreted_string_literal_content", "iota",
    "keyed_element", "label_name", "labeled_statement", "literal_element", "literal_value",
    "map_type", "method_declaration", "method_elem", "negated_type", "nil", "package_clause",
    "package_identifier", "parameter_declaration", "parameter_list",
    "parenthesized_expression", "parenthesized_type", "pointer_type", "qualified_type",
    "range_clause", "raw_string_literal", "raw_string_literal_content", "receive_statement",
    "return_statement", "rune_literal", "select_statement", "selector_expression",
    "send_statement", "short_var_declaration", "slice_expression", "slice_type",
    "source_file", "struct_type", "true", "type_alias", "type_arguments",
    "type_assertion_expression", "type_case", "type_constraint", "type_conversion_expression",
    "type_declaration", "type_elem", "type_identifier", "type_instantiation_expression",
    "type_parameter_declaration", "type_parameter_list", "type_spec", "type_switch_statement",
    "unary_expression", "var_declaration", "var_spec", "var_spec_list", "variadic_argument",
    "variadic_parameter_declaration"]
  startsOnly := ["_expression", "_simple_statement", "_simple_type", "_statement"]

/-- The table with the given name. -/
def ofName? : String → Option KindTable
  | "html" => some html
  | "python" => some python
  | "javascript" => some javascript
  | "rust" => some rust
  | "go" => some go
  | _ => none

end KindTable

end SpanTree
