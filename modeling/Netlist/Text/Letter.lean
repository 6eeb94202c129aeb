import Netlist.Text.Table

/-!
# Letters

The characters that are letters, in any script.
-/

namespace Netlist.Text

/-- The letters, as ranges in ascending order. -/
def letterRanges : Ranges :=
  .read "41-5A 61-7A AA B5 A C0-D6 8-F6 8-2C1 6-D1 E0-4 C E 370-4 6-7 A-D F 86 8-A C E-A1 3-F5 7-481
    A-52F 31-56 9 60-88 D0-EA F-F2 620-4A 6E-F 71-D3 5 E5-6 E-F FA-C F 710 2-2F 4D-A5 B1 CA-EA F4-5
    A 800-15 A 24 8 40-58 60-A 70-87 9-F A0-C9 904-39 D 50 8-61 71-80 5-C F-90 3-A8 A-B0 2 6-9 D CE
    DC-D F-E1 F0-1 C A05-A F-10 3-28 A-30 2-3 5-6 8-9 59-C E 72-4 85-D F-91 3-A8 A-B0 2-3 5-9 D D0
    E0-1 F9 B05-C F-10 3-28 A-30 2-3 5-9 D 5C-D F-61 71 83 5-A E-90 2-5 9-A C E-F A3-4 8-A E-B9 D0
    C05-C E-10 2-28 A-39 D 58-A C-D 60-1 80 5-C E-90 2-A8 A-B3 5-9 D DC-E E0-1 F1-2 D04-C E-10 2-3A
    D 4E 54-6 F-61 7A-F 85-96 A-B1 3-B D C0-6 E01-30 2-3 40-6 81-2 4 6-A C-A3 5 7-B0 2-3 D C0-4 6
    DC-F F00 40-7 9-6C 88-C 1000-2A 3F 50-5 A-D 61 5-6 E-70 5-81 E A0-C5 7 D D0-FA C-248 A-D 50-6 8
    A-D 60-88 A-D 90-B0 2-5 8-E C0 2-5 8-D6 8-310 2-5 8-5A 80-F A0-F5 8-D 401-66C F-7F 81-9A A0-EA
    F1-8 700-11 F-31 40-51 60-C E-70 80-B3 D7 C 820-78 80-4 7-A8 A B0-F5 900-1E 50-6D 70-4 80-AB
    B0-C9 A00-16 20-54 A7 B05-33 45-C 83-A0 E-F BA-E5 C00-23 4D-F 5A-7D 80-A 90-BA D-F E9-C E-F3 5-6
    A D00-BF E00-F15 8-D 20-45 8-D 50-7 9 B D F-7D 80-B4 6-C E C2-4 6-C D0-3 6-B E0-C F2-4 6-C 2071
    F 90-C 102 7 A-13 5 9-D 24 6 8 A-D F-39 C-F 45-9 E 83-4 C00-E4 B-E F2-3 D00-25 7 D 30-67 F 80-96
    A0-6 8-E B0-6 8-E C0-6 8-E D0-6 8-E E2F 3005-6 31-5 B-C 41-96 D-F A1-FA C-F 105-2F 31-8E A0-BF
    F0-F 400-4DBF E00-A48C D0-FD 500-60C 10-F 2A-B 40-6E 7F-9D A0-E5 717-F 22-88 B-DC F1-801 3-5 7-A
    C-22 40-73 82-B3 F2-7 B D-E 90A-25 30-46 60-7C 84-B2 CF E0-4 6-F FA-E A00-28 40-2 4-B 60-76 A
    E-AF B1 5-6 9-D C0 2 DB-D E0-A F2-4 B01-6 9-E 11-6 20-6 8-E 30-5A C-69 70-E2 C00-D7A3 B0-C6 B-FB
    F900-A6D 70-D9 B00-6 13-7 D F-28 A-36 8-C E 40-1 3-4 6-B1 D3-D3D 50-8F 92-C7 F0-B E70-4 6-FC
    F21-3A 41-5A 66-BE C2-7 A-F D2-7 A-C 10000-B D-26 8-3A C-D F-4D 50-D 80-FA 280-9C A0-D0 300-1F
    2D-40 2-9 50-75 80-9D A0-C3 8-F 400-9D B0-D3 8-FB 500-27 30-63 70-A C-8A C-92 4-5 7-A1 3-B1 3-9
    B-C C0-F3 600-736 40-55 60-7 80-5 7-B0 2-A 800-5 8 A-35 7-8 C F-55 60-76 80-9E E0-F2 4-5 900-15
    20-39 40-59 80-B7 E-F A00 10-3 5-7 9-35 60-7C 80-9C C0-7 9-E4 B00-35 40-55 60-72 80-91 C00-48
    80-B2 C0-F2 D00-23 4A-65 F-85 E80-A9 B0-1 C2-7 F00-1C 27 30-45 70-81 B0-C4 E0-F6 1003-37 71-2 5
    83-AF D0-E8 103-26 44 7 50-72 6 83-B2 C1-4 DA C 200-11 3-2B 3F-40 80-6 8 A-D F-9D F-A8 B0-DE
    305-C F-10 3-28 A-30 2-3 5-9 D 50 D-61 80-9 B E 90-B5 7 D1 3 400-34 47-A 5F-61 80-AF C4-5 7
    580-AE D8-B 600-2F 44 80-AA B8 700-1A 40-6 800-2B A0-DF FF-906 9 C-13 5-6 8-2F 3F 41 A0-7 A-D0
    E1 3 A00 B-32 A 50 C-89 9D B0-F8 BC0-E0 C00-8 A-2E 40 72-8F D00-6 8-9 B-30 46 60-5 7-8 A-89 98
    B0-DB EE0-F2 F02 4-10 2-33 B0 2000-399 480-543 F90-F0 3000-42F 41-6 60-43FA 400-646 6100-1D
    800-A38 40-5E 70-BE D0-ED B00-2F 40-3 63-77 D-8F D40-6C E40-7F A0-B8 B-D3 F00-4A 50 93-F E0-1 3
    F2-3 7000-8CD5 FF-D1E 80-F2 AFF0-3 5-B D-E B000-122 32 50-2 5 64-7 70-2FB C00-6A 70-C 80-8 90-9
    D400-54 6-9C E-F A2 5-6 9-C E-B9 B D-C3 5-505 7-A D-14 6-C E-39 B-E 40-4 6 A-50 2-6A5 8-C0 2-DA
    C-FA C-714 6-34 6-4E 50-6E 70-88 A-A8 A-C2 4-B F00-1E 25-A E030-6D 100-2C 37-D 4E 290-AD C0-EB
    4D0-EB 5D0-ED F0 6C0-DE E0-2 4-5 7-D F0-4 E-F 7E0-6 8-B D-E F0-E 800-C4 900-43 B E00-3 5-1F 21-2
    4 7 9-32 4-7 9 B 42 7 9 B D-F 51-2 4 7 9 B D F 61-2 4 7-A C-72 4-7 9-C E 80-9 B-9B A1-3 5-9 B-BB
    20000-A6DF 700-B81D 20-CEAD B0-EBE0 F0-E5D F800-A1D 30000-134A 50-3479"

def isLetter (c : Char) : Bool := letterRanges.holds c

end Netlist.Text
