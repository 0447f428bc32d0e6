import WidgetBridge.Mapping.Table

/-!
# The bundled mapping table

The widgets that are mapped without any configuration.
-/

namespace WidgetBridge.Mapping.Bundled

private def both : Assoc (List String) :=
  [("componentModel", ["react-native"]), ("widgetTree", ["package:flutter/material.dart"])]

private def widgetOnly : Assoc (List String) :=
  [("widgetTree", ["package:flutter/material.dart"])]

private def plain (name target : String) : PropRule := { name, target }

private def styled (name target : String) (transform : Transform := .identity) : PropRule :=
  { name, target, transform, style := true }

private def keyword (name target : String) (style : Bool) (values : Assoc String) : PropRule :=
  { name, target, transform := .enum, style, values }

private def event (name target : String) (aliases : List String := []) : PropRule :=
  { name, target, transform := .event, aliases }

private def color (name target : String) : PropRule := { name, target, transform := .color }

private def axis : PropRule :=
  keyword "horizontal" "scrollDirection" false
    [("true", "Axis.horizontal"), ("false", "Axis.vertical")]

/-- Boxes and texts. -/
def boxes : List Entry :=
  [{ source := "View", target := "Container", imports := both
     aliases := ["div", "section", "main", "header", "footer", "nav", "article"]
     targetAliases := [("Column", []), ("Row", [("flexDirection", .str "row")])]
     childSlot := "child"
     groups := [("decoration", "BoxDecoration")]
     layout := some ⟨"flexDirection", "column", [("column", "Column"), ("row", "Row")]⟩
     props := [
       styled "padding" "padding" .edgeInsets,
       styled "margin" "margin" .edgeInsets,
       { name := "backgroundColor", target := "decoration.color", targetAliases := ["color"]
         transform := .color, style := true },
       styled "width" "width",
       styled "height" "height",
       styled "borderRadius" "decoration.borderRadius" .borderRadius,
       styled "flexDirection" "layout",
       keyword "justifyContent" "layout.mainAxisAlignment" true [
         ("flex-start", "MainAxisAlignment.start"), ("center", "MainAxisAlignment.center"),
         ("flex-end", "MainAxisAlignment.end"),
         ("space-between", "MainAxisAlignment.spaceBetween"),
         ("space-around", "MainAxisAlignment.spaceAround"),
         ("space-evenly", "MainAxisAlignment.spaceEvenly")],
       keyword "alignItems" "layout.crossAxisAlignment" true [
         ("flex-start", "CrossAxisAlignment.start"), ("center", "CrossAxisAlignment.center"),
         ("flex-end", "CrossAxisAlignment.end"), ("stretch", "CrossAxisAlignment.stretch")]] },
   { source := "Text", target := "Text", imports := both
     aliases := ["span", "p", "h1", "h2", "h3", "label"]
     textMode := .positional, childSlot := "none"
     groups := [("style", "TextStyle")]
     props := [
       styled "color" "style.color" .color,
       styled "fontSize" "style.fontSize",
       keyword "fontWeight" "style.fontWeight" true [
         ("normal", "FontWeight.normal"), ("bold", "FontWeight.bold"),
         ("100", "FontWeight.w100"), ("300", "FontWeight.w300"), ("500", "FontWeight.w500"),
         ("700", "FontWeight.w700"), ("900", "FontWeight.w900")],
       keyword "fontStyle" "style.fontStyle" true [
         ("normal", "FontStyle.normal"), ("italic", "FontStyle.italic")],
       keyword "textAlign" "textAlign" true [
         ("left", "TextAlign.left"), ("center", "TextAlign.center"),
         ("right", "TextAlign.right"), ("justify", "TextAlign.justify")],
       plain "numberOfLines" "maxLines"] }]

/-- Widgets with a counterpart of their own on both sides. -/
def controls : List Entry :=
  [{ source := "Button", target := "ElevatedButton", aliases := ["button"], imports := both
     arity := .single, textMode := .wrap, childSlot := "child"
     props := [plain "title" "#text", event "onPress" "onPressed" ["onClick"],
       event "onLongPress" "onLongPress"] },
   { source := "Pressable", target := "InkWell", imports := both
     aliases := ["TouchableOpacity", "TouchableHighlight"]
     arity := .single, childSlot := "child"
     props := [event "onPress" "onTap" ["onClick"], event "onLongPress" "onLongPress"] },
   { source := "Image", target := "Image.network", aliases := ["img"], imports := both
     arity := .leaf, childSlot := "none"
     props := [
       { name := "src", target := "@0", aliases := ["uri"] },
       { name := "source", target := "@0", transform := .imageSource },
       styled "width" "width", styled "height" "height",
       keyword "resizeMode" "fit" false [
         ("cover", "BoxFit.cover"), ("contain", "BoxFit.contain"), ("stretch", "BoxFit.fill"),
         ("center", "BoxFit.none")]] },
   { source := "TextInput", target := "TextField", aliases := ["input", "textarea"]
     imports := both, arity := .leaf, childSlot := "none"
     groups := [("decoration", "InputDecoration")]
     props := [plain "placeholder" "decoration.hintText",
       event "onChangeText" "onChanged" ["onChange"], event "onSubmitEditing" "onSubmitted",
       plain "secureTextEntry" "obscureText", plain "editable" "enabled",
       plain "maxLength" "maxLength"] },
   { source := "ScrollView", target := "SingleChildScrollView", imports := both
     childSlot := "child"
     props := [axis, styled "padding" "padding" .edgeInsets] },
   { source := "SafeAreaView", target := "SafeArea", imports := both, childSlot := "child" },
   { source := "FlatList", target := "ListView.builder", imports := both
     arity := .leaf, childSlot := "none"
     props := [plain "renderItem" "itemBuilder", axis] },
   { source := "Switch", target := "Switch", imports := both, arity := .leaf
     childSlot := "none"
     props := [plain "value" "value", event "onValueChange" "onChanged"] },
   { source := "ActivityIndicator", target := "CircularProgressIndicator", imports := both
     arity := .leaf, childSlot := "none"
     props := [color "color" "color"] }]

/-- Widgets that keep their names on the component side. -/
def structures : List Entry :=
  [{ source := "Padding", target := "Padding", imports := widgetOnly, arity := .single
     childSlot := "child", props := [styled "padding" "padding" .edgeInsets] },
   { source := "SizedBox", target := "SizedBox", imports := widgetOnly, arity := .single
     childSlot := "child", props := [styled "width" "width", styled "height" "height"] },
   { source := "Center", target := "Center", imports := widgetOnly, arity := .single
     childSlot := "child" },
   { source := "Expanded", target := "Expanded", imports := widgetOnly, arity := .single
     childSlot := "child", props := [styled "flex" "flex"] },
   { source := "Stack", target := "Stack", imports := widgetOnly },
   { source := "Scaffold", target := "Scaffold", imports := widgetOnly, childSlot := "body"
     props := [styled "backgroundColor" "backgroundColor" .color] },
   { source := "AppBar", target := "AppBar", imports := widgetOnly, arity := .single
     textMode := .wrap, childSlot := "title"
     props := [plain "title" "#text", styled "backgroundColor" "backgroundColor" .color,
       plain "centerTitle" "centerTitle"] },
   { source := "Card", target := "Card", imports := widgetOnly, childSlot := "child"
     props := [plain "elevation" "elevation", styled "margin" "margin" .edgeInsets] },
   { source := "Divider", target := "Divider", imports := widgetOnly, arity := .leaf
     childSlot := "none"
     props := [color "color" "color", plain "thickness" "thickness",
       styled "height" "height"] },
   { source := "Icon", target := "Icon", imports := widgetOnly, arity := .leaf
     childSlot := "none"
     props := [plain "name" "@0", plain "size" "size", color "color" "color"] },
   { source := "IconButton", target := "IconButton", imports := widgetOnly, arity := .leaf
     childSlot := "none"
     props := [plain "icon" "icon", event "onPress" "onPressed" ["onClick"],
       color "color" "color"] },
   { source := "TextButton", target := "TextButton", imports := widgetOnly, arity := .single
     textMode := .wrap, childSlot := "child"
     props := [plain "title" "#text", event "onPress" "onPressed" ["onClick"],
       event "onLongPress" "onLongPress"] },
   { source := "Checkbox", target := "Checkbox", aliases := ["CheckBox"]
     imports := widgetOnly, arity := .leaf, childSlot := "none"
     props := [plain "value" "value", event "onValueChange" "onChanged"] },
   { source := "Slider", target := "Slider", imports := widgetOnly, arity := .leaf
     childSlot := "none"
     props := [plain "value" "value", plain "minimumValue" "min", plain "maximumValue" "max",
       event "onValueChange" "onChanged"] }]

/-- Route trees. The routes themselves are attached to the element. -/
def routers : List Entry :=
  [{ source := "Router", target := "MaterialApp"
     aliases := ["BrowserRouter", "HashRouter", "MemoryRouter", "Routes"]
     targetAliases := [("MaterialApp.router", [])]
     imports := [("componentModel", ["react-router-dom"]),
       ("widgetTree", ["package:flutter/material.dart"])]
     childSlot := "none" }]

/-- All bundled entries. -/
def entries : List Entry := boxes ++ controls ++ structures ++ routers

/-- The file name of the bundled table. -/
def fileName : String := "widget_mappings.yaml"

/-- The bundled table. -/
def table : Table := .ofEntries entries [fileName]

end WidgetBridge.Mapping.Bundled
