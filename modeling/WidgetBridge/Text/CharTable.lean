/-!
# Tables of character properties

Each property is a list of code point ranges written as a text of hexadecimal numbers: for each
range the distance from the end of the range before it, then its length less one. Only code
points from U+0080 on are listed, except where a table says otherwise; the first 128 are decided
by the predicates that use the tables.
-/

namespace WidgetBridge.Text.CharTable

/-- Decimal digits, all of Unicode; every range starts at a digit zero. -/
def decimalDigits : String :=
  "30 9 627 9 87 9 c7 9 19d 9 77 9 77 9 77 9 77 9 77 9 77 9 77 9 77 9 77 9 61 9 77 9 47 9 117 9
    47 9 747 9 27 9 12d 9 81 9 a7 9 7 9 b7 9 57 9 87 9 7 9 89c7 9 2a7 9 27 9 c7 9 17 9 57 9 197
    9 5317 9 587 9 887 9 32d 9 81 9 3d 9 91 9 117 9 157 9 77 9 177 9 67 9 67 9 1a7 9 67 9 2f7 9
    f7 9 47 9 4cb7 9 57 9 87 9 6c75 31 941 9 1a7 9 657 9 1297 9"

/-- Digits that are no decimal digits, such as superscripts. -/
def otherDigits : String :=
  "b2 1 6 0 12b0 8 669 0 696 0 4 5 7 9 3d7 8 c 8 c 8 5a 0 b 8 2 0 277 8 2 8 2 8 e2ae 3 41d 8
    1ea 8 e0a6 a"

/-- Letters and numbers of every kind. -/
def wordChars : String :=
  "aa 0 8 1 2 0 4 1 2 2 2 16 2 1e 2 1c9 5 b f 4 8 0 2 0 82 4 2 1 3 3 2 0 7 0 2 2 2 0 2 13 2 52
    2 8a 9 a5 2 25 3 0 7 28 48 1a 5 3 2e 2a 16 9 5 1 2 62 2 0 10 1 8 e 3 0 11 0 2 1d 1e 58 c 0 f
    2a a 1 5 0 6 15 5 0 a 0 4 0 18 18 8 a 6 17 2 5 12 29 3b 35 4 0 13 0 8 9 5 9 2 f 5 7 3 1 3 15
    2 6 2 0 4 3 4 0 11 0 e 1 2 2 5 b 3 5 3 0 9 5 5 1 3 15 2 6 2 1 2 1 2 1 20 3 2 0 8 9 3 2 11 8
    2 2 2 15 2 6 2 1 2 4 4 0 13 0 10 1 5 9 a 0 c 7 3 1 3 15 2 6 2 1 2 4 4 0 1f 1 2 2 5 9 2 6 c 0
    2 5 4 2 2 3 4 1 2 0 2 1 4 1 4 2 4 b 17 0 16 c 13 7 2 2 2 16 2 f 4 0 1b 2 3 0 3 1 5 9 9 6 2 0
    5 7 2 2 2 16 2 9 2 4 4 0 20 1 2 1 5 9 2 1 12 8 2 2 2 28 3 0 11 0 6 2 2 9 5 12 2 5 6 11 4 17
    2 8 2 0 3 6 20 9 12 2f 2 1 d 6 a 9 28 1 2 0 2 4 2 17 2 0 2 9 2 1 a 0 3 4 2 0 a 9 3 3 21 0 20
    13 d 7 2 23 1c 4 74 2a 15 a 7 5 5 3 4 0 4 1 8 2 5 c d 0 2 9 7 25 2 0 6 0 3 2a 2 14c 2 3 3 6
    2 0 2 3 3 28 2 3 3 20 2 3 3 6 2 0 2 3 3 e 2 38 2 3 3 42 f 13 4 f 11 55 3 5 4 26b 3 10 2 19 6
    4a 4 a 8 11 e 12 f 11 f c 2 2 10 33 24 0 5 0 4 9 7 9 17 9 7 58 8 4 3 21 2 0 6 45 b 1e 28 27
    3 4 c 2b 5 19 7 a 26 16 a 34 2c 9 7 9 e 0 5e 2e 12 7 4 9 2a 1d e 37 1b 23 1d 9 4 30 3 8 8 2a
    3 2 2a 3 2 5 2 1 4 0 6 bf 41 115 3 5 3 25 3 5 3 7 2 0 2 0 2 0 2 1e 3 34 2 6 2 0 4 2 2 6 4 3
    3 5 5 c 6 2 2 6 74 1 3 5 6 a 7 c 66 0 5 0 3 9 2 0 4 4 7 0 2 0 2 0 2 3 2 a 3 3 6 4 5 0 2 39
    2d7 3b 4f 15 277 1d 46d e4 7 3 4 1 a 0 3 25 2 0 6 0 3 37 8 0 11 16 a 6 2 6 2 6 2 6 2 6 2 6 2
    6 2 6 51 0 1d6 2 1a 8 8 4 3 4 5 55 7 2 2 59 2 3 6 2a 2 5d 4 3 b 1f 31 f 21 9 1f 7 2 e 21 9
    28 e 141 19bf 41 568c 44 2d 3 10c 4 1b 15 2e 11 1e 3 4f 28 8 3 66 3 3f 6 1 2 0 2 4 19 f 2 2
    2 3 2 16 e 5 b 33 f 31 1d 9 19 5 4 0 2 1 2 25 b 16 1a 1c 8 2e 1d a 7 4 2 18 2 28 18 2 2 7 5
    9 7 16 4 0 4 31 2 0 4 1 3 4 3 0 2 0 19 2 3 a 8 2 d 5 3 5 3 5 a 6 2 6 2 2a 2 d 7 72 e 9 7
    2ba3 d 16 5 30 2105 16d 3 69 27 6 d 4 6 0 2 9 2 c 2 4 2 0 2 1 2 1 2 6b 22 16a 13 3f 3 35 29
    b 75 4 2 86 14 9 8 19 7 19 c 58 4 5 3 5 3 5 3 2 24 b 2 19 2 12 2 1 2 e 3 d 23 7a d 2c d 38
    12 1 f5 1c 4 30 11 1a 5 23 a 1d 6 25 b 1d 3 23 5 7 2 4 2b 9d 3 9 7 23 5 23 5 27 9 33 d a 2 e
    2 6 2 1 2 a 2 e 2 6 2 1 44 136 a 15 b 7 19 5 2 29 2 8 46 5 3 0 2 2b 2 1 4 0 3 16 3 1e 3 25 9
    8 31 12 2 1 6 20 5 19 47 37 5 13 3 2e 10 3 2 2 2 1c b 8 18 1e 2 1f 21 7 2 1b 7 4 11 35 b 15
    3 1a 6 19 18 6 51 48 38 32 e 32 8 29 d 9 127 1e 2 29 7 1 4f 27 9 15 c 3 1c 11 2f 1b 15 16 d
    34 1b 1d 2 1 3 0 e 2c 21 18 8 9 a 23 10 9 5 0 3 0 9 22 4 0 d 2f f 3 c a 2 0 5 13 c 11 2 18
    55 6 2 0 2 3 2 e 2 9 8 2e 12 9 c 7 3 1 3 15 2 6 2 1 2 4 4 0 13 0 d 4 9f 34 13 3 6 9 6 2 1f
    2f 15 1 2 0 9 9 a7 2e 2a 3 25 2f 15 0 c 9 27 2a e 0 8 9 37 1a 16 b 5 6 ba 2b 75 52 d 7 3 0 3
    7 2 1 2 17 10 0 2 0 f 9 47 7 3 26 11 0 2 0 1d 0 b 27 8 0 16 0 c 2d 14 0 13 48 108 8 2 24 12
    0 10 1c 6 1d 71 6 2 1 2 25 16 0 a 9 7 5 2 1 2 1f f 0 8 9 137 12 be 0 10 14 2c 399 67 6e 12
    c3 a4d 60 10 42e fd2 246 21ba 238 8 1e 2 9 7 4e 2 9 7 1d 13 2f 11 3 d 9 2 6 2 14 6 12 2b1 56
    6a 4a 6 0 43 c 41 1 2 0 1d 17f7 9 4d5 2b 8 22e8 3 2 6 2 1 2 122 2e 2 12 3 9 18b 905 6a 6 c 4
    8 8 9 1647 13 6d 18 88 54 2 46 2 1 3 0 3 1 3 3 2 b 2 0 2 6 2 40 2 3 3 7 2 6 2 1b 2 3 2 4 2 0
    4 6 2 153 3 18 2 18 2 1e 2 18 2 1e 2 18 2 1e 2 18 2 1e 2 18 2 7 3 31 701 1e 1e2 2c b 6 3 9 5
    0 142 1d 13 2b 5 9 4e7 6 2 3 2 1 2 e 2 c4 3 8 31 43 8 0 5 9 318 3a 2 2 2 3 4d 2c 2 e c3 3 2
    1a 2 1 2 0 3 0 2 9 2 3 2 0 2 0 7 0 5 0 2 0 2 0 2 2 2 1 2 0 3 0 2 0 2 0 2 0 2 0 2 1 2 0 3 3 2
    6 2 3 2 3 2 0 2 9 2 10 6 2 2 4 2 10 245 c ae4 9 407 a6df 21 1038 8 dd 3 1681 f 1d30 c20 21d
    5e3 134a"

/-- Upper-case letters. -/
def upperCase : String :=
  "c0 16 2 6 22 0 2 0 2 0 2 0 2 0 2 0 2 0 2 0 2 0 2 0 2 0 2 0 2 0 2 0 2 0 2 0 2 0 2 0 2 0 2 0 2
    0 2 0 2 0 2 0 2 0 2 0 2 0 2 0 3 0 2 0 2 0 2 0 2 0 2 0 2 0 2 0 3 0 2 0 2 0 2 0 2 0 2 0 2 0 2
    0 2 0 2 0 2 0 2 0 2 0 2 0 2 0 2 0 2 0 2 0 2 0 2 0 2 0 2 0 2 0 2 1 2 0 2 0 4 1 2 0 2 1 2 2 3
    3 2 1 2 2 4 1 2 1 2 0 2 0 2 1 2 0 3 0 2 1 2 2 2 0 2 1 4 0 8 0 3 0 3 0 3 0 2 0 2 0 2 0 2 0 2
    0 2 0 2 0 3 0 2 0 2 0 2 0 2 0 2 0 2 0 2 0 2 0 3 0 3 0 2 2 2 0 2 0 2 0 2 0 2 0 2 0 2 0 2 0 2
    0 2 0 2 0 2 0 2 0 2 0 2 0 2 0 2 0 2 0 2 0 2 0 2 0 2 0 2 0 2 0 2 0 2 0 2 0 2 0 2 0 8 1 2 1 3
    0 2 3 2 0 2 0 2 0 2 0 122 0 2 0 4 0 9 0 7 0 2 2 2 0 2 1 2 10 2 8 24 0 3 2 4 0 2 0 2 0 2 0 2
    0 2 0 2 0 2 0 2 0 2 0 2 0 2 0 6 0 3 0 2 1 3 32 31 0 2 0 2 0 2 0 2 0 2 0 2 0 2 0 2 0 2 0 2 0
    2 0 2 0 2 0 2 0 2 0 2 0 a 0 2 0 2 0 2 0 2 0 2 0 2 0 2 0 2 0 2 0 2 0 2 0 2 0 2 0 2 0 2 0 2 0
    2 0 2 0 2 0 2 0 2 0 2 0 2 0 2 0 2 0 2 0 2 1 2 0 2 0 2 0 2 0 2 0 2 0 3 0 2 0 2 0 2 0 2 0 2 0
    2 0 2 0 2 0 2 0 2 0 2 0 2 0 2 0 2 0 2 0 2 0 2 0 2 0 2 0 2 0 2 0 2 0 2 0 2 0 2 0 2 0 2 0 2 0
    2 0 2 0 2 0 2 0 2 0 2 0 2 0 2 0 2 0 2 0 2 0 2 0 2 0 2 0 2 0 2 0 2 0 2 0 2 0 3 25 b4a 25 2 0
    6 0 2d3 55 89b 2a 3 2 141 0 2 0 2 0 2 0 2 0 2 0 2 0 2 0 2 0 2 0 2 0 2 0 2 0 2 0 2 0 2 0 2 0
    2 0 2 0 2 0 2 0 2 0 2 0 2 0 2 0 2 0 2 0 2 0 2 0 2 0 2 0 2 0 2 0 2 0 2 0 2 0 2 0 2 0 2 0 2 0
    2 0 2 0 2 0 2 0 2 0 2 0 2 0 2 0 2 0 2 0 2 0 2 0 2 0 2 0 2 0 2 0 2 0 2 0 2 0 2 0 2 0 2 0 2 0
    2 0 2 0 2 0 2 0 2 0 2 0 2 0 2 0 2 0 2 0 2 0 2 0 a 0 2 0 2 0 2 0 2 0 2 0 2 0 2 0 2 0 2 0 2 0
    2 0 2 0 2 0 2 0 2 0 2 0 2 0 2 0 2 0 2 0 2 0 2 0 2 0 2 0 2 0 2 0 2 0 2 0 2 0 2 0 2 0 2 0 2 0
    2 0 2 0 2 0 2 0 2 0 2 0 2 0 2 0 2 0 2 0 2 0 2 0 2 0 2 0 2 0 a 7 9 5 b 7 9 7 9 5 c 0 2 0 2 0
    2 0 9 7 49 3 d 3 d 3 d 4 c 3 107 0 5 0 4 2 3 2 3 0 4 4 7 0 2 0 2 0 2 3 3 3 b 1 6 0 1b f 14 0
    333 19 731 2f 31 0 2 2 3 0 2 0 2 0 2 3 2 0 3 0 9 2 2 0 2 0 2 0 2 0 2 0 2 0 2 0 2 0 2 0 2 0 2
    0 2 0 2 0 2 0 2 0 2 0 2 0 2 0 2 0 2 0 2 0 2 0 2 0 2 0 2 0 2 0 2 0 2 0 2 0 2 0 2 0 2 0 2 0 2
    0 2 0 2 0 2 0 2 0 2 0 2 0 2 0 2 0 2 0 2 0 2 0 2 0 2 0 2 0 2 0 9 0 2 0 5 0 794e 0 2 0 2 0 2 0
    2 0 2 0 2 0 2 0 2 0 2 0 2 0 2 0 2 0 2 0 2 0 2 0 2 0 2 0 2 0 2 0 2 0 2 0 2 0 14 0 2 0 2 0 2 0
    2 0 2 0 2 0 2 0 2 0 2 0 2 0 2 0 2 0 2 0 88 0 2 0 2 0 2 0 2 0 2 0 2 0 4 0 2 0 2 0 2 0 2 0 2 0
    2 0 2 0 2 0 2 0 2 0 2 0 2 0 2 0 2 0 2 0 2 0 2 0 2 0 2 0 2 0 2 0 2 0 2 0 2 0 2 0 2 0 2 0 2 0
    2 0 2 0 b 0 2 0 2 1 2 0 2 0 2 0 2 0 5 0 2 0 3 0 2 0 4 0 2 0 2 0 2 0 2 0 2 0 2 0 2 0 2 0 2 0
    2 4 2 4 2 0 2 0 2 0 2 0 2 0 2 0 2 0 2 3 2 0 7 0 6 0 2 0 1d 0 572c 19 4c6 27 89 23 9d a 2 e 2
    6 2 1 6eb 32 bee 1f 5581 1f 65a1 19 1b 19 1b 19 1b 0 2 1 3 0 3 1 3 3 2 7 1b 19 1b 1 2 3 3 7
    2 6 1c 1 2 3 2 4 2 0 4 6 1c 19 1b 19 1b 19 1b 19 1b 19 1b 19 1f 18 22 18 22 18 22 18 22 18
    22 0 1136 21 80f 19 7 19 7 19"

/-- Control, format, unassigned and separator characters. -/
def unprintable : String :=
  "80 20 d 0 2cb 1 7 3 8 0 2 0 15 0 18e 0 27 1 33 1 4 0 38 7 1c 3 7 10 17 0 c1 0 31 1 3c 1 66 d
    3c 1 32 1 10 0 1d 1 2 0 c 4 20 8 4b 0 a2 0 9 1 3 1 17 0 8 0 2 2 5 1 a 1 3 1 5 7 2 3 3 0 6 1
    1a 1 4 0 7 3 3 1 17 0 8 0 3 0 3 0 3 1 2 0 6 3 3 1 4 2 2 6 5 0 2 6 12 9 4 0 a 0 4 0 17 0 8 0
    3 0 6 1 b 0 4 0 4 1 2 e 5 1 d 6 8 0 4 0 9 1 3 1 17 0 8 0 3 0 6 1 a 1 3 1 4 6 4 3 3 0 6 1 13
    9 3 0 7 2 4 0 5 2 3 0 2 0 3 2 3 2 4 2 d 3 6 2 4 0 5 1 2 5 2 d 16 4 e 0 4 0 18 0 11 1 a 0 4 0
    5 6 3 0 4 1 2 1 5 1 b 6 17 0 4 0 18 0 b 0 6 1 a 0 4 0 5 6 3 5 3 0 5 1 b 0 3 c e 0 4 0 34 0 4
    0 7 3 11 1 1b 0 4 0 13 2 19 0 a 0 2 1 8 2 2 3 7 0 2 0 9 5 b 1 4 b 3b 3 1e 24 3 0 2 0 6 0 19
    0 2 0 18 1 6 0 2 0 7 1 b 1 5 1f 49 0 25 3 28 0 25 0 10 0 e 24 c7 0 2 4 2 1 17a 0 5 1 8 0 2 0
    5 1 2a 0 5 1 22 0 5 1 8 0 2 0 5 1 10 0 3a 0 5 1 44 1 21 2 1b 5 57 1 7 1 281 0 1d 2 5a 6 17 8
    19 8 15 b e 0 4 0 3 b 5f 1 b 5 b 5 f 0 c 5 5a 6 2c 4 47 9 20 0 d 3 d 3 2 2 2b 1 6 a 2d 3 1b
    5 c 2 3f 1 42 0 1e 1 c 5 b 5 f 1 20 30 4e 2 30 0 75 7 3d 2 10 2 3d 6 2c 1 c 7 2c 4 217 1 7 1
    27 1 7 1 9 0 2 0 2 0 2 0 20 1 36 0 10 0 f 1 7 0 14 1 4 0 a 10 19 7 30 10 3 1 1c 0 e 2 22 e
    22 e 8d 3 298 18 c 14 715 1 21 0 15e 4 2e 0 2 4 2 1 39 6 3 d 19 8 8 0 8 0 8 0 8 0 8 0 8 0 8
    0 8 0 7f 21 1b 0 5a b d7 19 d 4 40 0 57 1 68 4 2c 0 5f 0 55 b 30 0 726e 2 38 8 15d 13 b9 7
    cc 4 3 0 2 0 6 17 3c 2 b 5 39 7 47 7 d 5 75 a 1f 2 4f 0 c 3 22 0 38 8 f 1 b 1 68 17 1d 9 7 1
    7 1 7 8 8 0 8 0 3d 3 7f 1 b 5 2ba5 b 18 3 32 3 801 18ff 16f 1 6b 25 8 b 6 4 1b 0 6 0 2 0 3 0
    3 0 7e f 1be 1 37 6 2 1f 2b 5 34 0 14 0 5 3 6 0 88 3 bf 2 7 1 7 1 7 1 4 2 8 0 8 c 3 1 d 0 1b
    0 14 0 3 0 10 1 f 21 7c 4 4 3 2e 2 59 0 e 2 2 2e 2f 81 1e 2 32 e 1d 3 25 8 1f 4 2c 4 1f 0 26
    3 f 29 9f 1 b 5 25 3 25 3 29 7 35 a d 0 10 0 8 0 3 0 c 0 10 0 8 0 3 42 138 8 17 9 9 17 7 0
    2b 0 a 44 7 1 2 0 2d 0 3 2 2 1 18 0 49 7 a 2f 14 0 3 4 22 2 1c 4 2 3f 39 3 15 1 33 0 3 4 9 0
    4 0 1e 1 4 3 b 6 a 6 41 1f 28 3 d 8 37 2 1e 1 1c 4 1b 6 5 b 8 4f 4a 36 34 c 34 6 2f 7 b 125
    20 0 2b 0 4 1 3 4d 29 7 2b 15 1b 25 1d 13 18 8 4f 3 25 8 3f 0 6 c 1a 6 b 5 36 0 13 7 28 8 61
    0 15 a 13 0 2d 40 8 0 2 0 5 0 10 0 c 5 3c 4 b 5 5 0 9 1 3 1 17 0 8 0 3 0 6 0 b 1 3 1 4 1 2 5
    2 4 8 1 8 2 6 8a 5d 0 6 1d 49 7 b a5 37 1 27 21 46 a b 5 e 12 3b 5 b 35 1c 1 10 3 18 b8 3d
    63 54 b 9 1 2 1 9 0 3 0 1f 0 3 1 d 8 b 45 9 1 2f 1 c 1a 49 7 54 c 4a 106 a 0 2e 0 f 9 1e 2
    21 1 17 0 f 48 8 0 3 0 2d 2 2 0 3 0 a 7 b 5 7 0 3 0 26 0 3 0 7 6 b 135 1a b6 2 e 33 c 39c 65
    70 0 6 a c5 a4b 64 c 430 fd0 248 21b8 23a 6 20 0 b 3 52 0 b 5 1f 1 7 9 47 9 b 0 8 0 16 4 14
    2af 5c 64 4c 3 3a 6 12 3f 6 a 3 d 17f9 7 4d7 29 a 22e6 5 0 8 0 3 0 124 2c 4 10 5 7 18d 903
    6c 4 e 2 a 6 b 1 5 125f 2f 1 18 8 75 3b f7 9 28 1 4b 7 71 14 47 99 15 b 58 8 1a 86 56 0 48 0
    3 1 2 1 3 1 5 0 d 0 2 0 8 0 42 0 5 1 9 0 8 0 1d 0 5 0 6 0 2 2 8 0 155 1 125 1 2bf e 6 0 10
    44f 20 e0 8 0 12 1 8 0 3 0 6 d4 2e 2 f 1 b 3 3 13f 20 10 3b 4 2 4df 8 0 5 0 3 0 10 0 c6 1 11
    28 4d 3 b 3 3 310 45 4b 3e c1 5 0 1c 0 3 0 2 1 2 0 b 0 5 0 2 0 2 5 2 3 2 0 2 0 2 0 4 0 3 0 2
    1 2 0 2 0 2 0 2 0 2 0 3 0 2 1 5 0 8 0 5 0 5 0 2 0 b 0 12 4 4 0 6 0 12 33 3 10d 2d 3 65 b 10
    1 10 0 10 0 26 9 af 37 1e c 2d 3 a 6 3 d 7 99 3d9 4 11 2 e 2 75 b 5a 6 d 3 2 e d 3 39 7 b 5
    29 7 1f 1 3 4d 155 b f 1 6 2 6 2 8 8 1e 2 c 4 7 9 b 5 9 7 8 8 94 0 38 24 b 405 a6e1 1f 103a
    6 df 1 1683 d 1d32 c1e 21f 5e1 134c aedb4 f1 2fe0f"

/-- Characters that may start an identifier. -/
def identifierStart : String :=
  "aa 0 b 0 5 0 6 16 2 1e 2 1c9 5 b f 4 8 0 2 0 82 4 2 1 4 2 2 0 7 0 2 2 2 0 2 13 2 52 2 8a 9
    a5 2 25 3 0 7 28 48 1a 5 3 2e 2a 24 1 2 62 2 0 10 1 8 1 b 2 3 0 11 0 2 1d 1e 58 c 0 19 20 a
    1 5 0 6 15 5 0 a 0 4 0 18 18 8 a 6 17 2 5 12 29 3b 35 4 0 13 0 8 9 10 f 5 7 3 1 3 15 2 6 2 0
    4 3 4 0 11 0 e 1 2 2 f 1 b 0 9 5 5 1 3 15 2 6 2 1 2 1 2 1 20 3 2 0 14 2 11 8 2 2 2 15 2 6 2
    1 2 4 4 0 13 0 10 1 18 0 c 7 3 1 3 15 2 6 2 1 2 4 4 0 1f 1 2 2 10 0 12 0 2 5 4 2 2 3 4 1 2 0
    2 1 4 1 4 2 4 b 17 0 35 7 2 2 2 16 2 f 4 0 1b 2 3 0 3 1 1f 0 5 7 2 2 2 16 2 9 2 4 4 0 20 1 2
    1 10 1 12 8 2 2 2 28 3 0 11 0 6 2 9 2 19 5 6 11 4 17 2 8 2 0 3 6 3b 2f 2 0 e 6 3b 1 2 0 2 4
    2 17 2 0 2 9 2 0 b 0 3 4 2 0 16 3 21 0 40 7 2 23 1c 4 74 2a 15 0 11 5 5 3 4 0 4 1 8 2 5 c d
    0 12 25 2 0 6 0 3 2a 2 14c 2 3 3 6 2 0 2 3 3 28 2 3 3 20 2 3 3 6 2 0 2 3 3 e 2 38 2 3 3 42
    26 f 11 55 3 5 4 26b 3 10 2 19 6 4a 4 a 8 11 e 12 f 11 f c 2 2 10 33 24 0 5 0 44 58 8 28 2 0
    6 45 b 1e 32 1d 3 4 c 2b 5 19 37 16 a 34 53 0 5e 2e 12 7 37 1d e 1 b 2b 1b 23 2a 2 b 23 3 8
    8 2a 3 2 2a 3 2 5 2 1 4 0 6 bf 41 115 3 5 3 25 3 5 3 7 2 0 2 0 2 0 2 1e 3 34 2 6 2 0 4 2 2 6
    4 3 3 5 5 c 6 2 2 6 75 0 e 0 11 c 66 0 5 0 3 9 2 0 3 5 7 0 2 0 2 0 2 f 3 3 6 4 5 0 12 28 a78
    e4 7 3 4 1 d 25 2 0 6 0 3 37 8 0 11 16 a 6 2 6 2 6 2 6 2 6 2 6 2 6 2 6 227 2 1a 8 8 4 3 4 5
    55 7 2 2 59 2 3 6 2a 2 5d 12 1f 31 f 201 19bf 41 568c 44 2d 3 10c 4 f b 1 15 2e 11 1e 3 4f
    28 8 3 66 3 3f 6 1 2 0 2 4 19 f 2 2 2 3 2 16 1e 33 f 31 3f 5 4 0 2 1 c 1b b 16 1a 1c 8 2e 1d
    0 11 4 2 9 b 4 2 28 18 2 2 7 15 16 4 0 4 31 2 0 4 1 3 4 3 0 2 0 19 2 3 a 8 2 d 5 3 5 3 5 a 6
    2 6 2 2a 2 d 7 72 1e 2ba3 d 16 5 30 2105 16d 3 69 27 6 d 4 6 0 2 9 2 c 2 4 2 0 2 1 2 1 2 6b
    22 8a 7 d9 13 3f 3 35 29 9 78 0 2 0 4 0 2 0 2 0 2 0 2 7d 25 19 7 19 c 37 3 1e 4 5 3 5 3 5 3
    2 24 b 2 19 2 12 2 1 2 e 3 d 23 7a 46 34 10c 1c 4 30 30 1f e 1d 6 25 b 1d 3 23 5 7 2 4 2b 9d
    13 23 5 23 5 27 9 33 d a 2 e 2 6 2 1 2 a 2 e 2 6 2 1 44 136 a 15 b 7 19 5 2 29 2 8 46 5 3 0
    2 2b 2 1 4 0 3 16 b 16 a 1e 42 12 2 1 b 15 b 19 47 37 7 1 41 0 10 3 2 2 2 1c 2b 1c 4 1c 24 7
    2 1b 1c 35 b 15 b 12 e 11 6f 48 38 32 e 32 e 23 15d 29 7 1 4f 1c b 0 9 15 2b 11 2f 14 1c 16
    d 34 3a 1 3 0 e 2c 21 18 1b 23 1e 0 3 0 9 22 4 0 d 2f f 3 16 0 2 0 24 11 2 18 55 6 2 0 2 3 2
    e 2 9 8 2e 27 7 3 1 3 15 2 6 2 1 2 4 4 0 13 0 d 4 9f 34 13 3 15 2 1f 2f 15 1 2 0 b9 2e 2a 3
    25 2f 15 0 3c 2a e 0 48 1a 26 6 ba 2b 75 3f 20 7 3 0 3 7 2 1 2 17 10 0 2 0 5f 7 3 26 11 0 2
    0 1d 0 b 27 8 0 16 0 c 2d 14 0 13 48 108 8 2 24 12 0 32 1d 71 6 2 1 2 25 16 0 1a 5 2 1 2 1f
    f 0 148 12 be 0 50 399 67 6e 12 c3 a4d 60 10 42e fd2 246 21ba 238 8 1e 12 4e 12 1d 13 2f 11
    3 20 14 6 12 2b1 3f 81 4a 6 0 43 c 41 1 2 0 1d 17f7 9 4d5 2b 8 22e8 3 2 6 2 1 2 122 2e 2 12
    3 9 18b 905 6a 6 c 4 8 8 9 1767 54 2 46 2 1 3 0 3 1 3 3 2 b 2 0 2 6 2 40 2 3 3 7 2 6 2 1b 2
    3 2 4 2 0 4 6 2 153 3 18 2 18 2 1e 2 18 2 1e 2 18 2 1e 2 18 2 1e 2 18 2 7 735 1e 1e2 2c b 6
    11 0 142 1d 13 2b 4f5 6 2 3 2 1 2 e 2 c4 3c 43 8 0 4b5 3 2 1a 2 1 2 0 3 0 2 9 2 3 2 0 2 0 7
    0 5 0 2 0 2 0 2 2 2 1 2 0 3 0 2 0 2 0 2 0 2 0 2 1 2 0 3 3 2 6 2 3 2 3 2 0 2 9 2 10 6 2 2 4 2
    10 1145 a6df 21 1038 8 dd 3 1681 f 1d30 c20 21d 5e3 134a"

/-- Characters that may continue an identifier. -/
def identifierContinue : String :=
  "aa 0 b 0 2 0 3 0 6 16 2 1e 2 1c9 5 b f 4 8 0 2 0 12 74 2 1 4 2 2 0 7 4 2 0 2 13 2 52 2 8a 2
    4 3 a5 2 25 3 0 7 28 9 2c 2 0 2 1 2 1 2 0 9 1a 5 3 1e a 6 49 5 65 2 7 3 9 2 12 3 0 11 3a 3
    64 f 35 5 0 3 0 3 2d 13 1b 5 a 6 17 2 5 a 49 2 80 3 9 2 12 2 7 3 1 3 15 2 6 2 0 4 3 3 8 3 1
    3 3 9 0 5 1 2 4 3 b b 0 2 0 3 2 2 5 5 1 3 15 2 6 2 1 2 1 2 1 3 0 2 4 5 1 3 2 4 0 8 3 2 0 8 f
    c 2 2 8 2 2 2 15 2 6 2 1 2 4 3 9 2 2 2 2 3 0 10 3 3 9 a 6 2 2 2 7 3 1 3 15 2 6 2 1 2 4 3 8 3
    1 3 2 8 2 5 1 2 4 3 9 2 0 11 1 2 5 4 2 2 3 4 1 2 0 2 1 4 1 4 2 4 b 5 4 4 2 2 3 3 0 7 0 f 9
    11 c 2 2 2 16 2 f 3 8 2 2 2 3 8 1 2 2 3 0 3 3 3 9 11 3 2 7 2 2 2 16 2 9 2 4 3 8 2 2 2 3 8 1
    7 1 2 3 3 9 2 1 e c 2 2 2 32 2 2 2 4 6 3 8 4 3 9 b 5 2 2 2 11 4 17 2 8 2 0 3 6 4 0 5 5 2 0 2
    7 7 9 3 1 e 39 6 e 2 9 28 1 2 0 2 4 2 17 2 0 2 16 3 4 2 0 2 5 3 9 3 3 21 0 18 1 7 9 c 0 2 0
    2 0 5 9 2 23 5 13 2 11 2 23 a 0 3a 49 7 4d 3 25 2 0 6 0 3 2a 2 14c 2 3 3 6 2 0 2 3 3 28 2 3
    3 20 2 3 3 6 2 0 2 3 3 e 2 38 2 3 3 42 3 2 a 8 f f 11 55 3 5 4 26b 3 10 2 19 6 4a 4 a 8 15 a
    15 c 13 d c 2 2 2 1 d 53 4 0 5 1 3 9 22 2 2 a 7 58 8 2a 6 45 b 1e 2 b 5 b b 27 3 4 c 2b 5 19
    7 a 26 1b 5 3e 2 1c 3 a 7 9 e 0 9 d 2 f 32 4c 4 9 12 8 d 73 d 37 9 9 4 30 3 8 8 2a 3 2 11 2
    2 26 6 215 3 5 3 25 3 5 3 7 2 0 2 0 2 0 2 1e 3 34 2 6 2 0 4 2 2 6 4 3 3 5 5 c 6 2 2 6 43 1
    14 0 1d 0 e 0 11 c 34 c 5 0 4 b 12 0 5 0 3 9 2 0 3 5 7 0 2 0 2 0 2 f 3 3 6 4 5 0 12 28 a78
    e4 7 8 d 25 2 0 6 0 3 37 8 0 10 17 a 6 2 6 2 6 2 6 2 6 2 6 2 6 2 6 2 1f 206 2 1a e 2 4 3 4 5
    55 3 1 3 2 2 59 2 3 6 2a 2 5d 12 1f 31 f 201 19bf 41 568c 44 2d 3 10c 4 1b 15 2f 5 9 2 72 26
    8 3 66 3 3f 6 1 2 0 2 4 19 35 5 0 14 33 d 45 b 9 7 17 4 0 2 30 3 23 d 1c 4 40 f a 7 1e 2 36
    a d 3 9 7 16 4 48 19 2 3 f 3 4 b 5 3 5 3 5 a 6 2 6 2 2a 2 d 7 7a 2 1 3 9 7 2ba3 d 16 5 30
    2105 16d 3 69 27 6 d 4 6 b 2 c 2 4 2 0 2 1 2 1 2 6b 22 8a 7 d9 13 3f 3 35 29 9 7 f 11 f 4 1
    19 2 22 0 2 0 4 0 2 0 2 0 2 0 2 7d 14 9 8 19 5 0 2 19 c 58 4 5 3 5 3 5 3 2 24 b 2 19 2 12 2
    1 2 e 3 d 23 7a 46 34 89 0 83 1c 4 30 10 0 20 1f e 1d 6 2a 6 1d 3 23 5 7 2 4 2b 9d 3 9 7 23
    5 23 5 27 9 33 d a 2 e 2 6 2 1 2 a 2 e 2 6 2 1 44 136 a 15 b 7 19 5 2 29 2 8 46 5 3 0 2 2b 2
    1 4 0 3 16 b 16 a 1e 42 12 2 1 b 15 b 19 47 37 7 1 41 3 2 1 6 7 2 2 2 1c 3 2 5 0 21 1c 4 1c
    24 7 2 1d 1a 35 b 15 b 12 e 11 6f 48 38 32 e 32 e 27 9 9 147 29 2 1 4 1 4f 1c b 0 9 20 20 15
    2b 14 1c 16 a 46 20 f a 3b 8 0 e 18 8 9 7 34 2 9 5 3 9 23 3 0 a 44 5 3 2 c 2 0 24 11 2 24 7
    0 42 6 2 0 2 3 2 e 2 9 8 3a 6 9 7 3 2 7 3 1 3 15 2 6 2 1 2 4 2 9 3 1 3 2 3 0 7 0 6 6 3 6 4 4
    8c 4a 6 9 5 3 1f 45 2 0 9 9 a7 35 3 8 18 5 23 40 4 0 c 9 27 38 8 9 37 1a 3 e 5 9 7 6 ba 3a
    66 49 16 7 3 0 3 7 2 1 2 1d 2 1 3 8 d 9 47 7 3 2d 3 7 2 1 1c 3e 9 0 9 49 4 0 13 48 108 8 2
    2c 2 8 10 9 19 1d 3 15 2 d 4a 6 2 1 2 2b 4 0 2 1 2 8 9 9 7 5 2 1 2 24 2 1 2 5 8 9 137 16 ba
    0 50 399 67 6e 12 c3 a4d 60 10 42e fd2 246 21ba 238 8 1e 2 9 7 4e 2 9 7 1d 3 4 c 36 a 3 d 9
    a 14 6 12 2b1 3f 81 4a 5 38 8 10 41 1 2 1 c 1 f 17f7 9 4d5 2b 8 22e8 3 2 6 2 1 2 122 2e 2 12
    3 9 18b 905 6a 6 c 4 8 8 9 4 1 1262 2d 3 16 21f 4 4 5 9 7 3 6 1f 3 95 2 1bc 54 2 46 2 1 3 0
    3 1 3 3 2 b 2 0 2 6 2 40 2 3 3 7 2 6 2 1b 2 3 2 4 2 0 4 6 2 153 3 18 2 18 2 1e 2 18 2 1e 2
    18 2 1e 2 18 2 1e 2 18 2 7 3 31 201 36 5 31 9 0 f 0 17 4 2 e 451 1e e2 6 2 10 3 6 2 1 2 4 d6
    2c 4 d 3 9 5 0 142 1e 12 39 4e7 6 2 3 2 1 2 e 2 c4 c 6 2a 4b 5 9 4a7 3 2 1a 2 1 2 0 3 0 2 9
    2 3 2 0 2 0 7 0 5 0 2 0 2 0 2 2 2 1 2 0 3 0 2 0 2 0 2 0 2 0 2 1 2 0 3 3 2 6 2 3 2 3 2 0 2 9
    2 10 6 2 2 4 2 10 d35 9 407 a6df 21 1038 8 dd 3 1681 f 1d30 c20 21d 5e3 134a aedb6 ef"

/-! Case maps are runs of four hexadecimal numbers: first code point, count, stride and the
signed distance to the mapped code point. -/

/-- Upper-case forms that are one character. -/
def toUpper : String :=
  "b5 1 1 2e7 e0 17 1 -20 f8 7 1 -20 ff 1 1 79 101 18 2 -1 131 1 1 -e8 133 3 2 -1 13a 8 2 -1
    14b 17 2 -1 17a 3 2 -1 17f 1 1 -12c 180 1 1 c3 183 2 2 -1 188 1 1 -1 18c 1 1 -1 192 1 1 -1
    195 1 1 61 199 1 1 -1 19a 1 1 a3 19e 1 1 82 1a1 3 2 -1 1a8 1 1 -1 1ad 1 1 -1 1b0 1 1 -1 1b4
    2 2 -1 1b9 1 1 -1 1bd 1 1 -1 1bf 1 1 38 1c5 1 1 -1 1c6 1 1 -2 1c8 1 1 -1 1c9 1 1 -2 1cb 1 1
    -1 1cc 1 1 -2 1ce 8 2 -1 1dd 1 1 -4f 1df 9 2 -1 1f2 1 1 -1 1f3 1 1 -2 1f5 1 1 -1 1f9 14 2 -1
    223 9 2 -1 23c 1 1 -1 23f 2 1 2a3f 242 1 1 -1 247 5 2 -1 250 1 1 2a1f 251 1 1 2a1c 252 1 1
    2a1e 253 1 1 -d2 254 1 1 -ce 256 2 1 -cd 259 1 1 -ca 25b 1 1 -cb 25c 1 1 a54f 260 1 1 -cd
    261 1 1 a54b 263 1 1 -cf 265 1 1 a528 266 1 1 a544 268 1 1 -d1 269 1 1 -d3 26a 1 1 a544 26b
    1 1 29f7 26c 1 1 a541 26f 1 1 -d3 271 1 1 29fd 272 1 1 -d5 275 1 1 -d6 27d 1 1 29e7 280 1 1
    -da 282 1 1 a543 283 1 1 -da 287 1 1 a52a 288 1 1 -da 289 1 1 -45 28a 2 1 -d9 28c 1 1 -47
    292 1 1 -db 29d 1 1 a515 29e 1 1 a512 345 1 1 54 371 2 2 -1 377 1 1 -1 37b 3 1 82 3ac 1 1
    -26 3ad 3 1 -25 3b1 11 1 -20 3c2 1 1 -1f 3c3 9 1 -20 3cc 1 1 -40 3cd 2 1 -3f 3d0 1 1 -3e 3d1
    1 1 -39 3d5 1 1 -2f 3d6 1 1 -36 3d7 1 1 -8 3d9 c 2 -1 3f0 1 1 -56 3f1 1 1 -50 3f2 1 1 7 3f3
    1 1 -74 3f5 1 1 -60 3f8 1 1 -1 3fb 1 1 -1 430 20 1 -20 450 10 1 -50 461 11 2 -1 48b 1b 2 -1
    4c2 7 2 -1 4cf 1 1 -f 4d1 30 2 -1 561 26 1 -30 10d0 2b 1 bc0 10fd 3 1 bc0 13f8 6 1 -8 1c80 1
    1 -186e 1c81 1 1 -186d 1c82 1 1 -1864 1c83 2 1 -1862 1c85 1 1 -1863 1c86 1 1 -185c 1c87 1 1
    -1825 1c88 1 1 89c2 1d79 1 1 8a04 1d7d 1 1 ee6 1d8e 1 1 8a38 1e01 4b 2 -1 1e9b 1 1 -3b 1ea1
    30 2 -1 1f00 8 1 8 1f10 6 1 8 1f20 8 1 8 1f30 8 1 8 1f40 6 1 8 1f51 4 2 8 1f60 8 1 8 1f70 2
    1 4a 1f72 4 1 56 1f76 2 1 64 1f78 2 1 80 1f7a 2 1 70 1f7c 2 1 7e 1fb0 2 1 8 1fbe 1 1 -1c25
    1fd0 2 1 8 1fe0 2 1 8 1fe5 1 1 7 214e 1 1 -1c 2170 10 1 -10 2184 1 1 -1 24d0 1a 1 -1a 2c30
    30 1 -30 2c61 1 1 -1 2c65 1 1 -2a2b 2c66 1 1 -2a28 2c68 3 2 -1 2c73 1 1 -1 2c76 1 1 -1 2c81
    32 2 -1 2cec 2 2 -1 2cf3 1 1 -1 2d00 26 1 -1c60 2d27 1 1 -1c60 2d2d 1 1 -1c60 a641 17 2 -1
    a681 e 2 -1 a723 7 2 -1 a733 1f 2 -1 a77a 2 2 -1 a77f 5 2 -1 a78c 1 1 -1 a791 2 2 -1 a794 1
    1 30 a797 a 2 -1 a7b5 8 2 -1 a7c8 2 2 -1 a7d1 1 1 -1 a7d7 2 2 -1 a7f6 1 1 -1 ab53 1 1 -3a0
    ab70 50 1 -97d0 ff41 1a 1 -20 10428 28 1 -28 104d8 24 1 -28 10597 13 2 -27 10598 5 2 -27
    105a4 7 2 -27 105b4 3 2 -27 105bc 1 1 -27 10cc0 33 1 -40 118c0 20 1 -20 16e60 20 1 -20 1e922
    22 1 -22"

/-- Lower-case forms that are one character. -/
def toLower : String :=
  "c0 17 1 20 d8 7 1 20 100 18 2 1 132 3 2 1 139 8 2 1 14a 17 2 1 178 1 1 -79 179 3 2 1 181 1 1
    d2 182 2 2 1 186 1 1 ce 187 1 1 1 189 2 1 cd 18b 1 1 1 18e 1 1 4f 18f 1 1 ca 190 1 1 cb 191
    1 1 1 193 1 1 cd 194 1 1 cf 196 1 1 d3 197 1 1 d1 198 1 1 1 19c 1 1 d3 19d 1 1 d5 19f 1 1 d6
    1a0 3 2 1 1a6 1 1 da 1a7 1 1 1 1a9 1 1 da 1ac 1 1 1 1ae 1 1 da 1af 1 1 1 1b1 2 1 d9 1b3 2 2
    1 1b7 1 1 db 1b8 1 1 1 1bc 1 1 1 1c4 1 1 2 1c5 1 1 1 1c7 1 1 2 1c8 1 1 1 1ca 1 1 2 1cb 9 2 1
    1de 9 2 1 1f1 1 1 2 1f2 2 2 1 1f6 1 1 -61 1f7 1 1 -38 1f8 14 2 1 220 1 1 -82 222 9 2 1 23a 1
    1 2a2b 23b 1 1 1 23d 1 1 -a3 23e 1 1 2a28 241 1 1 1 243 1 1 -c3 244 1 1 45 245 1 1 47 246 5
    2 1 370 2 2 1 376 1 1 1 37f 1 1 74 386 1 1 26 388 3 1 25 38c 1 1 40 38e 2 1 3f 391 11 1 20
    3a3 9 1 20 3cf 1 1 8 3d8 c 2 1 3f4 1 1 -3c 3f7 1 1 1 3f9 1 1 -7 3fa 1 1 1 3fd 3 1 -82 400 10
    1 50 410 20 1 20 460 11 2 1 48a 1b 2 1 4c0 1 1 f 4c1 7 2 1 4d0 30 2 1 531 26 1 30 10a0 26 1
    1c60 10c7 1 1 1c60 10cd 1 1 1c60 13a0 50 1 97d0 13f0 6 1 8 1c90 2b 1 -bc0 1cbd 3 1 -bc0 1e00
    4b 2 1 1e9e 1 1 -1dbf 1ea0 30 2 1 1f08 8 1 -8 1f18 6 1 -8 1f28 8 1 -8 1f38 8 1 -8 1f48 6 1
    -8 1f59 4 2 -8 1f68 8 1 -8 1f88 8 1 -8 1f98 8 1 -8 1fa8 8 1 -8 1fb8 2 1 -8 1fba 2 1 -4a 1fbc
    1 1 -9 1fc8 4 1 -56 1fcc 1 1 -9 1fd8 2 1 -8 1fda 2 1 -64 1fe8 2 1 -8 1fea 2 1 -70 1fec 1 1
    -7 1ff8 2 1 -80 1ffa 2 1 -7e 1ffc 1 1 -9 2126 1 1 -1d5d 212a 1 1 -20bf 212b 1 1 -2046 2132 1
    1 1c 2160 10 1 10 2183 1 1 1 24b6 1a 1 1a 2c00 30 1 30 2c60 1 1 1 2c62 1 1 -29f7 2c63 1 1
    -ee6 2c64 1 1 -29e7 2c67 3 2 1 2c6d 1 1 -2a1c 2c6e 1 1 -29fd 2c6f 1 1 -2a1f 2c70 1 1 -2a1e
    2c72 1 1 1 2c75 1 1 1 2c7e 2 1 -2a3f 2c80 32 2 1 2ceb 2 2 1 2cf2 1 1 1 a640 17 2 1 a680 e 2
    1 a722 7 2 1 a732 1f 2 1 a779 2 2 1 a77d 1 1 -8a04 a77e 5 2 1 a78b 1 1 1 a78d 1 1 -a528 a790
    2 2 1 a796 a 2 1 a7aa 1 1 -a544 a7ab 1 1 -a54f a7ac 1 1 -a54b a7ad 1 1 -a541 a7ae 1 1 -a544
    a7b0 1 1 -a512 a7b1 1 1 -a52a a7b2 1 1 -a515 a7b3 1 1 3a0 a7b4 8 2 1 a7c4 1 1 -30 a7c5 1 1
    -a543 a7c6 1 1 -8a38 a7c7 2 2 1 a7d0 1 1 1 a7d6 2 2 1 a7f5 1 1 1 ff21 1a 1 20 10400 28 1 28
    104b0 24 1 28 10570 13 2 27 10571 5 2 27 1057d 7 2 27 1058d 3 2 27 10595 1 1 27 10c80 33 1
    40 118a0 20 1 20 16e40 20 1 20 1e900 22 1 22"

/-- Upper-case forms of several characters: the character, the count, the characters. -/
def toUpperLong : String :=
  "df 2 53 53 149 2 2bc 4e 1f0 2 4a 30c 390 3 399 308 301 3b0 3 3a5 308 301 587 2 535 552 1e96
    2 48 331 1e97 2 54 308 1e98 2 57 30a 1e99 2 59 30a 1e9a 2 41 2be 1f50 2 3a5 313 1f52 3 3a5
    313 300 1f54 3 3a5 313 301 1f56 3 3a5 313 342 1f80 2 1f08 399 1f81 2 1f09 399 1f82 2 1f0a
    399 1f83 2 1f0b 399 1f84 2 1f0c 399 1f85 2 1f0d 399 1f86 2 1f0e 399 1f87 2 1f0f 399 1f88 2
    1f08 399 1f89 2 1f09 399 1f8a 2 1f0a 399 1f8b 2 1f0b 399 1f8c 2 1f0c 399 1f8d 2 1f0d 399
    1f8e 2 1f0e 399 1f8f 2 1f0f 399 1f90 2 1f28 399 1f91 2 1f29 399 1f92 2 1f2a 399 1f93 2 1f2b
    399 1f94 2 1f2c 399 1f95 2 1f2d 399 1f96 2 1f2e 399 1f97 2 1f2f 399 1f98 2 1f28 399 1f99 2
    1f29 399 1f9a 2 1f2a 399 1f9b 2 1f2b 399 1f9c 2 1f2c 399 1f9d 2 1f2d 399 1f9e 2 1f2e 399
    1f9f 2 1f2f 399 1fa0 2 1f68 399 1fa1 2 1f69 399 1fa2 2 1f6a 399 1fa3 2 1f6b 399 1fa4 2 1f6c
    399 1fa5 2 1f6d 399 1fa6 2 1f6e 399 1fa7 2 1f6f 399 1fa8 2 1f68 399 1fa9 2 1f69 399 1faa 2
    1f6a 399 1fab 2 1f6b 399 1fac 2 1f6c 399 1fad 2 1f6d 399 1fae 2 1f6e 399 1faf 2 1f6f 399
    1fb2 2 1fba 399 1fb3 2 391 399 1fb4 2 386 399 1fb6 2 391 342 1fb7 3 391 342 399 1fbc 2 391
    399 1fc2 2 1fca 399 1fc3 2 397 399 1fc4 2 389 399 1fc6 2 397 342 1fc7 3 397 342 399 1fcc 2
    397 399 1fd2 3 399 308 300 1fd3 3 399 308 301 1fd6 2 399 342 1fd7 3 399 308 342 1fe2 3 3a5
    308 300 1fe3 3 3a5 308 301 1fe4 2 3a1 313 1fe6 2 3a5 342 1fe7 3 3a5 308 342 1ff2 2 1ffa 399
    1ff3 2 3a9 399 1ff4 2 38f 399 1ff6 2 3a9 342 1ff7 3 3a9 342 399 1ffc 2 3a9 399 fb00 2 46 46
    fb01 2 46 49 fb02 2 46 4c fb03 3 46 46 49 fb04 3 46 46 4c fb05 2 53 54 fb06 2 53 54 fb13 2
    544 546 fb14 2 544 535 fb15 2 544 53b fb16 2 54e 546 fb17 2 544 53d"

end WidgetBridge.Text.CharTable
