import Javelin.Library.SourceTree

/-!
# `java.util`

Collections and functional interfaces that ordinary programs use.
-/

namespace Javelin.Library

/-- Collections and functional interfaces that ordinary programs use. -/
def utilSources : List SourceFile :=
  [ sourceOf "java/util/ArrayList.java"
    [ "package java.util;",
      "",
      "public class ArrayList<E> implements List<E> \x7b",
      "    public ArrayList() \x7b\x7d",
      "    public ArrayList(int initialCapacity) \x7b\x7d",
      "    public ArrayList(Collection<? extends E> c) \x7b\x7d",
      "    public native int size();",
      "    public native boolean isEmpty();",
      "    public native boolean contains(Object o);",
      "    public native boolean add(E e);",
      "    public native boolean remove(Object o);",
      "    public native boolean addAll(Collection<? extends E> c);",
      "    public native void clear();",
      "    public native Object[] toArray();",
      "    public native Iterator<E> iterator();",
      "    public native E get(int index);",
      "    public native E set(int index, E element);",
      "    public native void add(int index, E element);",
      "    public native E remove(int index);",
      "    public native int indexOf(Object o);",
      "    public native List<E> subList(int fromIndex, int toIndex);",
      "\x7d" ],
    sourceOf "java/util/Collection.java"
    [ "package java.util;",
      "",
      "public interface Collection<E> extends Iterable<E> \x7b",
      "    int size();",
      "    boolean isEmpty();",
      "    boolean contains(Object o);",
      "    boolean add(E e);",
      "    boolean remove(Object o);",
      "    boolean addAll(Collection<? extends E> c);",
      "    void clear();",
      "    Object[] toArray();",
      "\x7d" ],
    sourceOf "java/util/HashMap.java"
    [ "package java.util;",
      "",
      "public class HashMap<K, V> implements Map<K, V> \x7b",
      "    public HashMap() \x7b\x7d",
      "    public native int size();",
      "    public native boolean isEmpty();",
      "    public native boolean containsKey(Object key);",
      "    public native V get(Object key);",
      "    public native V put(K key, V value);",
      "    public native V remove(Object key);",
      "    public native Set<K> keySet();",
      "    public native Collection<V> values();",
      "    public native Set<Map.Entry<K, V>> entrySet();",
      "\x7d" ],
    sourceOf "java/util/Iterator.java"
    [ "package java.util;",
      "",
      "public interface Iterator<E> \x7b",
      "    boolean hasNext();",
      "    E next();",
      "    default void remove() \x7b",
      "        throw new UnsupportedOperationException(\"remove\");",
      "    \x7d",
      "\x7d" ],
    sourceOf "java/util/List.java"
    [ "package java.util;",
      "",
      "public interface List<E> extends Collection<E> \x7b",
      "    E get(int index);",
      "    E set(int index, E element);",
      "    void add(int index, E element);",
      "    E remove(int index);",
      "    int indexOf(Object o);",
      "    List<E> subList(int fromIndex, int toIndex);",
      "    @SafeVarargs",
      "    static <E> List<E> of(E... elements) \x7b",
      "        return null;",
      "    \x7d",
      "\x7d" ],
    sourceOf "java/util/Map.java"
    [ "package java.util;",
      "",
      "public interface Map<K, V> \x7b",
      "    int size();",
      "    boolean isEmpty();",
      "    boolean containsKey(Object key);",
      "    V get(Object key);",
      "    V put(K key, V value);",
      "    V remove(Object key);",
      "    Set<K> keySet();",
      "    Collection<V> values();",
      "    Set<Map.Entry<K, V>> entrySet();",
      "    default V getOrDefault(Object key, V defaultValue) \x7b",
      "        return containsKey(key) ? get(key) : defaultValue;",
      "    \x7d",
      "",
      "    interface Entry<K, V> \x7b",
      "        K getKey();",
      "        V getValue();",
      "        V setValue(V value);",
      "    \x7d",
      "\x7d" ],
    sourceOf "java/util/NoSuchElementException.java"
    [ "package java.util;",
      "",
      "public class NoSuchElementException extends RuntimeException \x7b",
      "    public NoSuchElementException() \x7b\x7d",
      "    public NoSuchElementException(String message) \x7b",
      "        super(message);",
      "    \x7d",
      "\x7d" ],
    sourceOf "java/util/Objects.java"
    [ "package java.util;",
      "",
      "public final class Objects \x7b",
      "    private Objects() \x7b\x7d",
      "    public static native boolean equals(Object a, Object b);",
      "    public static native int hashCode(Object o);",
      "    public static native int hash(Object... values);",
      "    public static native String toString(Object o);",
      "    public static native <T> T requireNonNull(T obj);",
      "    public static native <T> T requireNonNull(T obj, String message);",
      "    public static native boolean isNull(Object obj);",
      "\x7d" ],
    sourceOf "java/util/Set.java"
    [ "package java.util;",
      "",
      "public interface Set<E> extends Collection<E> \x7b",
      "\x7d" ],
    sourceOf "java/util/function/BiFunction.java"
    [ "package java.util.function;",
      "",
      "@FunctionalInterface",
      "public interface BiFunction<T, U, R> \x7b",
      "    R apply(T t, U u);",
      "\x7d" ],
    sourceOf "java/util/function/Consumer.java"
    [ "package java.util.function;",
      "",
      "@FunctionalInterface",
      "public interface Consumer<T> \x7b",
      "    void accept(T t);",
      "\x7d" ],
    sourceOf "java/util/function/Function.java"
    [ "package java.util.function;",
      "",
      "@FunctionalInterface",
      "public interface Function<T, R> \x7b",
      "    R apply(T t);",
      "    default <V> Function<T, V> andThen(Function<? super R, ? extends V> after) \x7b",
      "        return (T t) -> after.apply(apply(t));",
      "    \x7d",
      "    static <T> Function<T, T> identity() \x7b",
      "        return t -> t;",
      "    \x7d",
      "\x7d" ],
    sourceOf "java/util/function/Predicate.java"
    [ "package java.util.function;",
      "",
      "@FunctionalInterface",
      "public interface Predicate<T> \x7b",
      "    boolean test(T t);",
      "    default Predicate<T> negate() \x7b",
      "        return t -> !test(t);",
      "    \x7d",
      "\x7d" ],
    sourceOf "java/util/function/Supplier.java"
    [ "package java.util.function;",
      "",
      "@FunctionalInterface",
      "public interface Supplier<T> \x7b",
      "    T get();",
      "\x7d" ] ]

end Javelin.Library
